import Lox.Proofs.Machine.Instances

/-!
# Runs on instances

The induction on fuel that carries instances, their classes and their fields through a run.

* `Fit`: a call whose values are as the program made them. `HandlesCall`: a call that leaves instances,
  classes and fields as they should be.
* `handlesAt`: **every call of a history is so.** One lemma a function goes through the calls that the
  function makes; fields are set by one form of expression alone.
* `Makes.fit`: the calls that a call makes are fit, on the machines on which they are made.
-/

namespace Lox

variable {α : Type} {W H : History} {cs cs' : List Class} {m m' : Machine} {n : Nat}

/-! ## 1. Operators and native functions -/

/-- What an operator computes is genuine, if its right operand is. -/
theorem binaryValue_genuine {op : Token} {a b v : Value} (hb : Genuine W cs m b)
    (h : binaryValue op a b = .ok v) : Genuine W cs m v := by
  -- an operator on numbers makes no class and no instance
  have hnumbers : ∀ {f : Float → Float → Computed},
      (∀ x y u, f x y = .ok u → Genuine W cs m u) → onNumbers op f a b = .ok v → Genuine W cs m v := by
    intro f hf hv
    unfold onNumbers at hv
    split at hv
    · exact hf _ _ _ hv
    · cases hv
  unfold binaryValue at h
  split at h
  · cases h
    exact hb
  · unfold plus at h
    split at h <;> cases h <;> trivial
  · exact hnumbers (fun _ _ u hu => by cases hu; trivial) h
  · exact hnumbers (fun _ _ u hu => by cases hu; trivial) h
  · refine hnumbers (fun x y u hu => ?_) h
    unfold quotient at hu
    split at hu <;> cases hu
    trivial
  · exact hnumbers (fun _ _ u hu => by cases hu; trivial) h
  · exact hnumbers (fun _ _ u hu => by cases hu; trivial) h
  · exact hnumbers (fun _ _ u hu => by cases hu; trivial) h
  · exact hnumbers (fun _ _ u hu => by cases hu; trivial) h
  · exact Except.ok.inj h ▸ trivial
  · exact Except.ok.inj h ▸ trivial
  · cases h

theorem unaryValue_genuine {op : Token} {a v : Value} (h : unaryValue op a = .ok v) :
    Genuine W cs m v := by
  unfold unaryValue at h
  split at h <;> cases h <;> trivial

theorem Handles.computed (h : Populated W cs m) {c : Computed}
    (hc : ∀ v, c = .ok v → Genuine W cs m v) : Handles W H cs m (liftM c) (Genuine W) := by
  cases c with
  | ok v => exact .of_ok rfl (.refl h) (hc v rfl)
  | error e => exact .stops h rfl

theorem argument_handles (h : Populated W cs m) (f : Native) (args : List Value) :
    Handles W H cs m (Native.argument f args) (fun _ _ _ => True) := by
  cases args with
  | nil => exact .stops h rfl
  | cons v rest => exact .pure h trivial

theorem orFailed_handles (h : Populated W cs m) (paren : Token) (r : Except ConsoleError α) :
    Handles W H cs m (Native.orFailed paren r) (fun _ _ _ => True) := by
  cases r with
  | ok a => exact .pure h trivial
  | error e => exact .stops h rfl

/-- **A native function** makes no class and no instance, and sets no field. -/
theorem native_handles (h : Populated W cs m) (f : Native) (args : List Value) (paren : Token) :
    Handles W H cs m (f.call args paren) (Genuine W) := by
  cases f with
  | clock =>
    have hread : Handles W H cs m readClock (fun _ _ _ => True) :=
      .of_ok rfl (.of_store h rfl) trivial
    refine hread.bind fun shown m₁ cs₁ _ h₁ _ => ?_
    cases shown with
    | some => exact .pure h₁.populated trivial
    | none => exact .stops h₁.populated rfl
  | print =>
    refine (argument_handles h .print args).bind fun v m₁ cs₁ _ h₁ _ => ?_
    have hwrite : Handles W H cs₁ m₁ (write (v.display ++ "\n")) (fun _ _ _ => True) :=
      .of_ok rfl (.of_store h₁.populated rfl) trivial
    refine hwrite.bind fun r m₂ cs₂ _ h₂ _ => ?_
    exact (orFailed_handles h₂.populated paren r).bind fun _ _ _ _ h₃ _ => .pure h₃.populated trivial
  | read =>
    have hread : Handles W H cs m readLine (fun _ _ _ => True) := by
      obtain ⟨sink, input, hm⟩ := nextLine_snd m
      have hstore : m.nextLine.2.store = m.store := by rw [hm]
      exact .of_ok (show readLine.run m = (.ok m.nextLine.1, m.nextLine.2) from rfl)
        (.of_store h hstore) trivial
    refine hread.bind fun r m₁ cs₁ _ h₁ _ => ?_
    refine (orFailed_handles h₁.populated paren r).bind fun line m₂ cs₂ _ h₂ _ => ?_
    cases line <;> exact .pure h₂.populated trivial
  | tonumber =>
    refine (argument_handles h .tonumber args).bind fun v m₁ cs₁ _ h₁ _ => .pure h₁.populated ?_
    unfold Native.numberOf
    split
    · trivial
    · split <;> trivial
  | tostring | type =>
    exact (argument_handles h _ args).bind fun v m₁ cs₁ _ h₁ _ => .pure h₁.populated trivial
  | sleep =>
    refine (argument_handles h .sleep args).bind fun v m₁ cs₁ _ h₁ _ => ?_
    cases v with
    | number x =>
      refine .congr (run_sleep x paren m₁) ?_
      cases Native.nanoseconds? x with
      | some k =>
        exact .of_ok rfl (.of_store h₁.populated rfl) trivial
      | none => exact .stops h₁.populated rfl
    | _ => exact .stops h₁.populated rfl

theorem returned_handles (h : Populated W cs m) (f : Closure) {s : Signal}
    (hs : ∀ v, s = .ret v → Genuine W cs m v) : Handles W H cs m (returned f s) (Genuine W) := by
  unfold returned
  split
  · exact .of_reads h (readAt_reads f.env 0 hiddenThis m)
  · cases s with
    | ret v => exact .pure h (hs v rfl)
    | normal | leave | next => exact .pure h trivial

theorem parameterBindings_genuine {f : Closure} {args : List Value}
    (h : ∀ v ∈ args, Genuine W cs m v) :
    ∀ x v, (parameterBindings f args).find? x = some v → Genuine W cs m v :=
  fun _ v hv => h v (List.of_mem_zip (Bindings.mem_of_find?_ofPairs hv)).2

/-! ## 2. Calls -/

/-- The values of a call are as the program made them. -/
def Fit (W : History) (cs : List Class) (m : Machine) : Call → Prop
  | .apply f args _ => Genuine W cs m f ∧ ∀ v ∈ args, Genuine W cs m v
  | .invoke _ args => ∀ v ∈ args, Genuine W cs m v
  | .evaluate _ _ | .evaluateAll _ _ | .execute _ _ | .executeAll _ _ | .turns _ _ _ _ => True

/-- The value that leaves a function with a signal is as the program made it. -/
def GenuineSignal (W : History) (cs : List Class) (m : Machine) (s : Signal) : Prop :=
  ∀ v, s = .ret v → Genuine W cs m v

/-- Values as the program made them. -/
def GenuineValues (W : History) (cs : List Class) (m : Machine) (vs : List Value) : Prop :=
  ∀ v ∈ vs, Genuine W cs m v

/-- **A call with the fuel `n`** leaves instances, classes and fields as they should be. -/
def HandlesCall (W H : History) (cs : List Class) (n : Nat) (m : Machine) : Call → Prop
  | .evaluate e env => Handles W H cs m (evaluate n e env) (Genuine W)
  | .evaluateAll es env =>
    Handles W H cs m (evaluateAll n es env) (GenuineValues W)
  | .apply f args paren => Handles W H cs m (apply n f args paren) (Genuine W)
  | .invoke f args => Handles W H cs m (invoke n f args) (Genuine W)
  | .execute s env => Handles W H cs m (execute n s env) (GenuineSignal W)
  | .executeAll ss env => Handles W H cs m (executeAll n ss env) (GenuineSignal W)
  | .turns condition increment body env =>
    Handles W H cs m (turns n condition increment body env) (GenuineSignal W)

section Functions

/-- The calls that a call makes are handled, once they are fit. -/
def MadeHandled (W H : History) (n : Nat) (m : Machine) (c : Call) : Prop :=
  ∀ c' m' cs', Makes n c m c' m' → Populated W cs' m' → Fit W cs' m' c' → HandlesCall W H cs' n m' c'

theorem evaluate_handles {e : Expr} {env : Env} (run : MadeHandled W H n m (.evaluate e env))
    (hcall : H ⟨n + 1, .evaluate e env, m⟩) (h : Populated W cs m) :
    Handles W H cs m (evaluate (n + 1) e env) (Genuine W) := by
  cases e with
  | literal l => cases l <;> exact .pure h trivial
  | group e => exact run _ _ _ .group h trivial
  | unary op e =>
    refine Handles.bind (run _ _ _ .operand h trivial) fun v m₁ cs₁ _ h₁ _ => ?_
    exact .computed h₁.populated fun u hu => unaryValue_genuine hu
  | binary l op r =>
    refine Handles.bind (run _ _ _ .binaryLeft h trivial) fun a m₁ cs₁ ha h₁ _ => ?_
    refine Handles.bind (run _ _ _ (.binaryRight ha) h₁.populated trivial)
      fun b m₂ cs₂ _ h₂ hb => ?_
    exact .computed h₂.populated fun u hu => binaryValue_genuine hb hu
  | logical l op r =>
    refine Handles.bind (run _ _ _ .logicalLeft h trivial) fun a m₁ cs₁ ha h₁ hgenuine => ?_
    by_cases hd : decides op a = true
    · rw [if_pos hd]
      exact .pure h₁.populated hgenuine
    · rw [if_neg hd]
      exact run _ _ _ (.logicalRight ha (Bool.eq_false_iff.mpr hd)) h₁.populated trivial
  | conditional c yes no =>
    refine Handles.bind (run _ _ _ .choiceCondition h trivial) fun a m₁ cs₁ ha h₁ _ => ?_
    by_cases ht : a.isTruthy = true
    · rw [if_pos ht]
      exact run _ _ _ (.choiceYes ha ht) h₁.populated trivial
    · rw [if_neg ht]
      exact run _ _ _ (.choiceNo ha (Bool.eq_false_iff.mpr ht)) h₁.populated trivial
  | read ref | this ref => exact .of_reads h (lookUp_reads ref env m)
  | assign ref e =>
    refine Handles.bind (run _ _ _ .assigned h trivial) fun v m₁ cs₁ _ h₁ hv => ?_
    exact (rebind_handles h₁.populated ref env hv).bind fun _ _ _ _ h₂ _ =>
      .pure h₂.populated (h₂.genuine hv)
  | call callee paren args =>
    refine Handles.bind (run _ _ _ .callee h trivial) fun f m₁ cs₁ hf h₁ hgenuine => ?_
    refine Handles.bind (run _ _ _ (.arguments hf) h₁.populated trivial)
      fun vs m₂ cs₂ hvs h₂ hvalues => ?_
    cases harity : f.arity? with
    | none => exact .stops h₂.populated rfl
    | some a =>
      show Handles W H cs₂ m₂ (if vs.length = a then apply n f vs paren
        else raise (.arity a vs.length paren.pos)) (Genuine W)
      by_cases ha : vs.length = a
      · rw [if_pos ha]
        exact run _ _ _ (.applied hf hvs (ha ▸ harity)) h₂.populated ⟨h₂.genuine hgenuine, hvalues⟩
      · rw [if_neg ha]
        exact .stops h₂.populated rfl
  | get object name =>
    refine Handles.bind (run _ _ _ .getObject h trivial) fun o m₁ cs₁ _ h₁ ho => ?_
    cases o with
    | object o c => exact property_handles h₁.populated name ho
    | _ => exact .stops h₁.populated rfl
  | set object name e =>
    refine Handles.bind (run _ _ _ .setObject h trivial) fun o m₁ cs₁ ho h₁ hobject => ?_
    cases o with
    | object o c =>
      refine Handles.bind (run _ _ _ (.setValue ho) h₁.populated trivial)
        fun v m₂ cs₂ hv h₂ hvalue => ?_
      have hset := Since.setField h₂.populated hcall (.intro ho hv) (h₂.genuine hobject) hvalue
      exact .of_ok rfl hset (hset.genuine hvalue)
    | _ => exact .stops h₁.populated rfl
  | super ref method => exact superMethod_handles h ref method env
  | lambda code => exact newFunction_handles h _

theorem evaluateAll_handles {es : List Expr} {env : Env}
    (run : MadeHandled W H n m (.evaluateAll es env)) (h : Populated W cs m) :
    Handles W H cs m (evaluateAll (n + 1) es env) (GenuineValues W) := by
  cases es with
  | nil => exact .pure h fun _ hv => nomatch hv
  | cons e rest =>
    refine Handles.bind (run _ _ _ .first h trivial) fun v m₁ cs₁ hv h₁ hvalue => ?_
    refine Handles.bind (run _ _ _ (.others hv) h₁.populated trivial)
      fun vs m₂ cs₂ _ h₂ hvalues => .pure h₂.populated fun u hu => ?_
    cases hu with
    | head => exact h₂.genuine hvalue
    | tail _ hu => exact hvalues u hu

theorem apply_handles {f : Value} {args : List Value} {paren : Token}
    (run : MadeHandled W H n m (.apply f args paren)) (h : Populated W cs m)
    (hfit : Fit W cs m (.apply f args paren)) :
    Handles W H cs m (apply (n + 1) f args paren) (Genuine W) := by
  cases f with
  | native f => exact native_handles h f args paren
  | function i f => exact run _ _ _ .function h hfit.2
  | ofClass c =>
    have hallocate : Handles W H cs m (allocate Store.newObject) (fun cs' m' o =>
        Genuine W cs' m' (.object o c) ∧ GenuineValues W cs' m' args) := by
      have hnew := Since.newObject (H := H) h hfit.1.1
      exact .of_ok rfl hnew ⟨Since.newest h c, fun v hv => hnew.genuine (hfit.2 v hv)⟩
    refine hallocate.bind fun o m₁ cs₁ ho h₁ hthis => ?_
    obtain ⟨hthis, hargs⟩ := hthis
    cases hinit : c.method? initializerName with
    | none => exact .pure h₁.populated hthis
    | some g =>
      refine (bindMethod_handles h₁.populated g hthis).bind fun bound m₂ cs₂ hb h₂ _ => ?_
      refine Handles.bind (run _ _ _ (.initializer hinit ho hb) h₂.populated
        fun v hv => h₂.genuine (hargs v hv)) fun _ m₃ cs₃ _ h₃ _ => ?_
      exact .pure h₃.populated (h₃.genuine (h₂.genuine hthis))
  | nil | bool | number | text | object => exact .stops h rfl

theorem invoke_handles {f : Closure} {args : List Value}
    (run : MadeHandled W H n m (.invoke f args)) (h : Populated W cs m)
    (hfit : Fit W cs m (.invoke f args)) :
    Handles W H cs m (invoke (n + 1) f args) (Genuine W) := by
  have hframe : Handles W H cs m (newFrame f.env (parameterBindings f args)) (fun _ _ _ => True) :=
    .of_ok rfl (.push h (parameterBindings_genuine hfit)) trivial
  refine hframe.bind fun env m₁ cs₁ henv h₁ _ => ?_
  exact Handles.bind (run _ _ _ (.body henv) h₁.populated trivial) fun s _ _ _ h₂ hs =>
    returned_handles h₂.populated f hs

/-- A signal without a value. -/
theorem Handles.normal {s : Signal} (h : Populated W cs m) (hs : ∀ v, s ≠ .ret v) :
    Handles W H cs m (Pure.pure s) (GenuineSignal W) :=
  .pure h fun v hv => absurd hv (hs v)

theorem emptyFrame_handles (h : Populated W cs m) (env : Env) :
    Handles W H cs m (newFrame env []) (fun _ _ _ => True) :=
  .of_ok rfl (.push h fun _ _ hu => nomatch hu) trivial

theorem execute_handles {s : Stmt} {env : Env} (run : MadeHandled W H n m (.execute s env))
    (hcall : W ⟨n + 1, .execute s env, m⟩) (h : Populated W cs m) :
    Handles W H cs m (execute (n + 1) s env) (GenuineSignal W) := by
  -- a statement that ends by binding its name
  have hdefine : ∀ {m₁ : Machine} {cs₁ : List Class} (name : String) {v : Value}, Populated W cs₁ m₁ →
      Genuine W cs₁ m₁ v → Handles W H cs₁ m₁ (do
        modifyStore (·.define env name v)
        return Signal.normal) (GenuineSignal W) := by
    intro m₁ cs₁ name v h₁ hv
    exact .of_ok rfl (.define h₁ env name hv) fun _ hr => nomatch hr
  cases s with
  | expr e =>
    exact Handles.bind (run _ _ _ .expression h trivial) fun _ _ _ _ h₁ _ =>
      .normal h₁.populated fun _ => Signal.noConfusion
  | varDecl name e =>
    exact Handles.bind (run _ _ _ .declared h trivial) fun v _ _ _ h₁ hv =>
      hdefine name.lexeme h₁.populated hv
  | funDecl decl =>
    obtain ⟨name, code⟩ := decl
    exact (newFunction_handles h _).bind fun f _ _ _ h₁ hf => hdefine name.lexeme h₁.populated hf
  | classDecl name superclass methods =>
    exact (declareClass_handles h hcall).bind fun _ _ _ _ h₁ _ =>
      .normal h₁.populated fun _ => Signal.noConfusion
  | branch condition yes no =>
    refine Handles.bind (run _ _ _ .branchCondition h trivial) fun a m₁ cs₁ ha h₁ _ => ?_
    by_cases ht : a.isTruthy = true
    · rw [if_pos ht]
      exact run _ _ _ (.branchYes ha ht) h₁.populated trivial
    · rw [if_neg ht]
      cases no with
      | some no => exact run _ _ _ (.branchNo ha (Bool.eq_false_iff.mpr ht)) h₁.populated trivial
      | none => exact .normal h₁.populated fun _ => Signal.noConfusion
  | whileLoop condition body => exact run _ _ _ .whileTurns h trivial
  | forLoop init condition increment body =>
    refine (emptyFrame_handles h env).bind fun inner m₁ cs₁ hinner h₁ _ => ?_
    cases init with
    | none => exact run _ _ _ (.bareTurns hinner) h₁.populated trivial
    | some start =>
      refine Handles.bind (run _ _ _ (.loopStart hinner) h₁.populated trivial)
        fun r m₂ cs₂ hr h₂ _ => ?_
      exact run _ _ _ (.loopTurns hinner hr) h₂.populated trivial
  | block body =>
    exact (emptyFrame_handles h env).bind fun inner m₁ cs₁ hinner h₁ _ =>
      run _ _ _ (.block hinner) h₁.populated trivial
  | ret keyword value =>
    cases value with
    | none => exact .pure h fun v hv => by cases hv; trivial
    | some e =>
      exact Handles.bind (run _ _ _ .returned h trivial) fun v _ _ _ h₁ hv =>
        .pure h₁.populated fun u hu => by cases hu; exact hv
  | leave keyword | next keyword => exact .normal h fun _ => Signal.noConfusion

theorem executeAll_handles {ss : List Stmt} {env : Env}
    (run : MadeHandled W H n m (.executeAll ss env)) (h : Populated W cs m) :
    Handles W H cs m (executeAll (n + 1) ss env) (GenuineSignal W) := by
  cases ss with
  | nil => exact .normal h fun _ => Signal.noConfusion
  | cons s rest =>
    refine Handles.bind (run _ _ _ .firstStatement h trivial) fun r m₁ cs₁ hr h₁ hsignal => ?_
    cases r with
    | normal => exact run _ _ _ (.otherStatements hr) h₁.populated trivial
    | ret | leave | next => exact .pure h₁.populated hsignal

theorem turns_handles {condition : Expr} {increment : Option Expr} {body : Stmt} {env : Env}
    (run : MadeHandled W H n m (.turns condition increment body env)) (h : Populated W cs m) :
    Handles W H cs m (turns (n + 1) condition increment body env) (GenuineSignal W) := by
  refine Handles.bind (run _ _ _ .turnCondition h trivial) fun a m₁ cs₁ ha h₁ _ => ?_
  by_cases ht : a.isTruthy = true
  · rw [if_pos ht]
    refine Handles.bind (run _ _ _ (.turnBody ha ht) h₁.populated trivial)
      fun r m₂ cs₂ hr h₂ hsignal => ?_
    -- after the body: out of the function, out of the loop, or on with the loop
    have hon (hg : r.goesOn = true) :
        Handles W H cs₂ m₂ (goOn n condition increment body env) (GenuineSignal W) := by
      cases increment with
      | none => exact run _ _ _ (.nextBareTurn ha ht hr hg) h₂.populated trivial
      | some i =>
        refine Handles.bind (run _ _ _ (.turnIncrement ha ht hr hg) h₂.populated trivial)
          fun v m₃ cs₃ hv h₃ _ => ?_
        exact run _ _ _ (.nextTurn ha ht hr hg hv) h₃.populated trivial
    cases r with
    | ret v => exact .pure h₂.populated hsignal
    | leave => exact .normal h₂.populated fun _ => Signal.noConfusion
    | normal | next => exact hon rfl
  · rw [if_neg ht]
    exact .normal h₁.populated fun _ => Signal.noConfusion

end Functions

/-! ## 3. Every call of a history -/

/-- **Every call of a history** leaves instances, classes and fields as they should be. Its fields are
    set by calls of the history `H`, its classes come from declarations of `W`. -/
theorem handlesAt (hclosed : H.Closed) (hsub : ∀ v, H v → W v) (n : Nat) (c : Call) (m : Machine)
    (cs : List Class) (hcall : H ⟨n, c, m⟩) (h : Populated W cs m) (hfit : Fit W cs m c) :
    HandlesCall W H cs n m c := by
  induction n generalizing c m cs with
  | zero => cases c <;> exact .stops h rfl
  | succ n ih =>
    have run : MadeHandled W H n m c := fun c' m' cs' hm => ih c' m' cs' (hclosed n c m c' m' hcall hm)
    cases c with
    | evaluate => exact evaluate_handles run hcall h
    | evaluateAll => exact evaluateAll_handles run h
    | apply => exact apply_handles run h hfit
    | invoke => exact invoke_handles run h hfit
    | execute => exact execute_handles run (hsub _ hcall) h
    | executeAll => exact executeAll_handles run h
    | turns => exact turns_handles run h

/-- What is so behind a computation is so behind a call. -/
theorem HandlesCall.since {c : Call} (h : HandlesCall W H cs n m c) :
    ∃ cs', Since W H cs m cs' (machineAfter n m c) := by
  cases c <;> exact h.imp fun _ h => h.1

section Made

variable {c c' : Call}

/-- **The calls that a call makes are fit**, on machines on which all is as it should be. -/
theorem Makes.fit (hclosed : H.Closed) (hsub : ∀ v, H v → W v) (hcall : H ⟨n + 1, c, m⟩)
    (h : Populated W cs m) (hfit : Fit W cs m c) (hm : Makes n c m c' m') :
    ∃ cs', Since W H cs m cs' m' ∧ Fit W cs' m' c' := by
  -- the calls that were made before are in the history, so they are handled
  have made : ∀ {c₁ m₁ cs₁}, Makes n c m c₁ m₁ → Populated W cs₁ m₁ → Fit W cs₁ m₁ c₁ →
      HandlesCall W H cs₁ n m₁ c₁ := fun hm =>
    handlesAt hclosed hsub n _ _ _ (hclosed n c m _ _ hcall hm)
  have hself : ∀ {c'}, Fit W cs m c' → ∃ cs', Since W H cs m cs' m ∧ Fit W cs' m c' := fun hc =>
    ⟨cs, .refl h, hc⟩
  cases hm with
  | group | operand | binaryLeft | logicalLeft | choiceCondition | assigned | callee | getObject
  | setObject | first | expression | declared | branchCondition | whileTurns | returned
  | firstStatement | turnCondition => exact hself trivial
  | function => exact hself hfit.2
  -- behind one evaluation
  | binaryRight hl => exact ((made .binaryLeft h trivial).of_run hl).imp fun _ h => ⟨h.1, trivial⟩
  | logicalRight hl _ =>
    exact ((made .logicalLeft h trivial).of_run hl).imp fun _ h => ⟨h.1, trivial⟩
  | choiceYes hc _ | choiceNo hc _ =>
    exact ((made .choiceCondition h trivial).of_run hc).imp fun _ h => ⟨h.1, trivial⟩
  | arguments hf => exact ((made .callee h trivial).of_run hf).imp fun _ h => ⟨h.1, trivial⟩
  | setValue ho => exact ((made .setObject h trivial).of_run ho).imp fun _ h => ⟨h.1, trivial⟩
  | others he => exact ((made .first h trivial).of_run he).imp fun _ h => ⟨h.1, trivial⟩
  | branchYes hc _ | branchNo hc _ =>
    exact ((made .branchCondition h trivial).of_run hc).imp fun _ h => ⟨h.1, trivial⟩
  | otherStatements hs =>
    exact ((made .firstStatement h trivial).of_run hs).imp fun _ h => ⟨h.1, trivial⟩
  | turnBody hc _ => exact ((made .turnCondition h trivial).of_run hc).imp fun _ h => ⟨h.1, trivial⟩
  -- calls of values
  | applied hf hargs _ =>
    obtain ⟨cs₁, h₁, hvalue⟩ := (made .callee h trivial).of_run hf
    obtain ⟨cs₂, h₂, hvalues⟩ := (made (.arguments hf) h₁.populated trivial).of_run hargs
    exact ⟨cs₂, h₁.trans h₂, h₂.genuine hvalue, hvalues⟩
  | @initializer c _ _ _ _ _ _ _ _ _ ho hb =>
    cases ho
    have hnew := Since.newObject (H := H) h hfit.1.1
    have hthis : Genuine W (cs ++ [c]) { m with store := m.store.newObject.2 }
        (.object m.store.objects.size c) := Since.newest h c
    obtain ⟨cs₂, h₂, -⟩ := (bindMethod_handles hnew.populated _ hthis).of_run hb
    exact ⟨cs₂, hnew.trans h₂, fun v hv => (hnew.trans h₂).genuine (hfit.2 v hv)⟩
  | @body f args _ _ _ hrun =>
    cases hrun
    exact ⟨cs, .push h (parameterBindings_genuine hfit), trivial⟩
  -- frames
  | loopStart hrun | bareTurns hrun | block hrun =>
    exact ((emptyFrame_handles h _).of_run hrun).imp fun _ h => ⟨h.1, trivial⟩
  | loopTurns hrun hs =>
    obtain ⟨cs₁, h₁, -⟩ := (emptyFrame_handles (H := H) h _).of_run hrun
    obtain ⟨cs₂, h₂, -⟩ := (made (.loopStart hrun) h₁.populated trivial).of_run hs
    exact ⟨cs₂, h₁.trans h₂, trivial⟩
  -- turns of a loop
  | turnIncrement hc ha hb _ =>
    obtain ⟨cs₁, h₁, -⟩ := (made .turnCondition h trivial).of_run hc
    obtain ⟨cs₂, h₂, -⟩ := (made (.turnBody hc ha) h₁.populated trivial).of_run hb
    exact ⟨cs₂, h₁.trans h₂, trivial⟩
  | nextBareTurn hc ha hb _ =>
    obtain ⟨cs₁, h₁, -⟩ := (made .turnCondition h trivial).of_run hc
    obtain ⟨cs₂, h₂, -⟩ := (made (.turnBody hc ha) h₁.populated trivial).of_run hb
    exact ⟨cs₂, h₁.trans h₂, trivial⟩
  | nextTurn hc ha hb hr hi =>
    obtain ⟨cs₁, h₁, -⟩ := (made .turnCondition h trivial).of_run hc
    obtain ⟨cs₂, h₂, -⟩ := (made (.turnBody hc ha) h₁.populated trivial).of_run hb
    obtain ⟨cs₃, h₃, -⟩ := (made (.turnIncrement hc ha hb hr) h₂.populated trivial).of_run hi
    exact ⟨cs₃, (h₁.trans h₂).trans h₃, trivial⟩

end Made

end Lox
