import Lox.Proofs.Machine.Parts

/-!
# What runs consist of

Whatever program runs, it does one thing after another, of few kinds. What each of them keeps is kept by
every run.

* `Consists H m x`: **on the machine `m`, the computation `x` consists of such things.** Where it declares
  a name, prints a value or reads a line, the call for that is in the history `H`.
* `calls_consist`: every call of a history does so, whatever the program is.
* `machineAfter`: the machine behind a call. `Call.size_le`, `Call.distances_eq`: no call gives up a frame
  or changes the distances.
-/

namespace Lox

/-! ## 1. Parts of a computation -/

/-- **A computation consists of few kinds of things**, on a machine. Nothing but printing and reading a
    line looks at the sink. -/
inductive Consists (H : History) : {α : Type} → Machine → Run α → Prop where
  /-- It comes to its end at once. -/
  | ends {α m r} {x : Run α} (h : ∀ m, x.run m = (r, m)) : Consists H m x
  /-- It goes by what the machine holds, but not by the sink. -/
  | sees {α m} {f : Machine → Run α} (hsink : ∀ sink, f { m with sink } = f m)
      (h : Consists H m (f m)) : Consists H m (get >>= f)
  /-- One computation after another. -/
  | bind {α β m} {x : Run α} {f : α → Run β} (hx : Consists H m x)
      (hf : ∀ a m', x.run m = (.ok a, m') → Consists H m' (f a)) : Consists H m (x >>= f)
  | frame {m env b} : Consists H m (newFrame env b)
  | object {m} : Consists H m (allocate Store.newObject)
  | identity {m} : Consists H m (allocate Store.newIdentity)
  | field {m o name v} : Consists H m (modifyStore (·.setField o name v))
  /-- A name is bound anew where it is bound. -/
  | rebinds {m f name v} (h : (m.store.frame f).binds name = true) :
      Consists H m (modifyStore (·.defineIn f name v))
  /-- A statement of the history binds the name that it declares. -/
  | declares {n s env m₀ name m v} (h : H ⟨n + 1, .execute s env, m₀⟩)
      (hs : s.declared? = some name) : Consists H m (modifyStore (·.define env name v))
  /-- A call of the history prints its argument. -/
  | print {n v rest paren m} (h : H ⟨n + 1, .apply (.native .print) (v :: rest) paren, m⟩) :
      Consists H m (Native.call .print (v :: rest) paren)
  /-- A call of the history reads a line. -/
  | read {n args paren m} (h : H ⟨n + 1, .apply (.native .read) args paren, m⟩) :
      Consists H m (Native.call .read args paren)
  /-- The clock is read. -/
  | clock {m} : Consists H m readClock
  | sleeps {m n} : Consists H m (modify fun m => { m with now := m.now + n })

variable {α β : Type} {H : History} {m : Machine} {n : Nat}

namespace Consists

theorem pure (a : α) : Consists H m (Pure.pure a : Run α) := .ends fun _ => rfl

theorem raise (e : RuntimeError) : Consists H m (raise e : Run α) := .ends fun _ => rfl

theorem computed (c : Computed) : Consists H m (liftM c : Run Value) := by
  cases c <;> exact .ends fun _ => rfl

theorem orFailed (paren : Token) (r : Except ConsoleError α) :
    Consists H m (Native.orFailed paren r) := by
  cases r <;> exact .ends fun _ => rfl

end Consists

/-! ## 2. Parts that run nothing themselves -/

theorem accessed_consists {t : Token} (r : Except AccessError α) :
    Consists H m (accessed t r) := by
  cases r with
  | ok a => exact .ends fun _ => rfl
  | error e => cases e <;> exact .ends fun _ => rfl

theorem readAt_consists (env : Env) (d : Nat) (t : Token) : Consists H m (readAt env d t) :=
  .sees (fun _ => rfl) (accessed_consists _)

theorem lookUp_consists (ref : Reference) (env : Env) : Consists H m (lookUp ref env) := by
  refine .sees (fun _ => rfl) ?_
  cases m.distances.find? ref.id with
  | some d => exact readAt_consists env d ref.token
  | none =>
    cases m.store.get? Store.globals ref.name with
    | some v => exact .pure v
    | none => exact .raise _

/-- The frame that a reference is bound in does bind it. -/
theorem binds_of_ownerOf {ref : Reference} {env : Env} {f : FrameId} {m' : Machine}
    (h : (ownerOf ref env).run m = (.ok f, m')) :
    m' = m ∧ (m.store.frame f).binds ref.name = true := by
  have hbound : ∀ g, (boundIn m.store g ref.token, m) = (Except.ok f, m') →
      m' = m ∧ (m.store.frame f).binds ref.name = true := by
    intro g hg
    unfold boundIn at hg
    split at hg
    · next hb =>
      cases hg
      exact ⟨rfl, hb⟩
    · cases hg
  cases hd : m.distances.find? ref.id with
  | none => exact hbound Store.globalFrame ((ownerOf_global hd).symm.trans h)
  | some d =>
    cases hf : env[d]? with
    | some g => exact hbound g ((ownerOf_at hd hf).symm.trans h)
    | none =>
      rw [ownerOf_over hd hf] at h
      cases h

theorem rebind_consists (ref : Reference) (env : Env) (v : Value) :
    Consists H m (rebind ref env v) := by
  have howner : Consists H m (ownerOf ref env) := by
    refine .sees (fun _ => rfl) ?_
    cases m.distances.find? ref.id with
    | some d => exact accessed_consists _
    | none =>
      dsimp only
      cases m.store.owner? Store.globals ref.name with
      | some f => exact .pure f
      | none => exact .raise _
  refine howner.bind fun f m' h => ?_
  obtain ⟨rfl, hb⟩ := binds_of_ownerOf h
  exact .rebinds hb

theorem newFunction_consists (f : Closure) : Consists H m (newFunction f) :=
  Consists.identity.bind fun _ _ _ => .pure _

theorem bindMethod_consists (f : Closure) (this : Value) : Consists H m (bindMethod f this) :=
  Consists.frame.bind fun _ _ _ => .pure _

theorem methodOr_consists (c : Class) (name : Token) (o : ObjectId) (d : Class) :
    Consists H m (methodOr c name o d) := by
  unfold methodOr
  cases c.method? name.lexeme with
  | some f => exact (bindMethod_consists f _).bind fun _ _ _ => newFunction_consists _
  | none => exact .raise _

theorem property_consists (o : ObjectId) (c : Class) (name : Token) :
    Consists H m (property o c name) := by
  refine .sees (fun _ => rfl) ?_
  cases (m.store.fields o).find? name.lexeme with
  | some v => exact .pure v
  | none => exact methodOr_consists c name o c

theorem superMethodOf_consists (c : Class) (method : Token) (env : Env) (nearer : Nat) :
    Consists H m (superMethodOf c method env nearer) := by
  refine (readAt_consists env nearer hiddenThis).bind fun v m' _ => ?_
  cases v with
  | object o d => exact methodOr_consists c method o d
  | _ => exact .ends fun _ => rfl

theorem superMethod_consists (ref : Reference) (method : Token) (env : Env) :
    Consists H m (superMethod ref method env) := by
  refine .sees (fun _ => rfl) ?_
  cases m.distances.find? ref.id with
  | none => exact .ends fun _ => rfl
  | some distance =>
    refine (readAt_consists env distance ref.token).bind fun v m' _ => ?_
    cases v with
    | ofClass c =>
      cases distance with
      | zero => exact .ends fun _ => rfl
      | succ nearer => exact superMethodOf_consists c method env nearer
    | _ => exact .ends fun _ => rfl

theorem superclassOf_consists (superclass : Option Reference) (env : Env) :
    Consists H m (superclassOf superclass env) := by
  cases superclass with
  | none => exact .pure none
  | some ref =>
    refine (lookUp_consists ref env).bind fun v m' _ => ?_
    cases v with
    | ofClass c => exact .pure (some c)
    | _ => exact .raise _

theorem methodEnv_consists (parent : Option Class) (env : Env) :
    Consists H m (methodEnv parent env) := by
  cases parent with
  | none => exact .pure env
  | some c => exact .frame

/-- The nearest frame that binds a name does bind it. -/
theorem Store.binds_of_owner? {s : Store} {env : Env} {name : String} {f : FrameId}
    (h : s.owner? env name = some f) : (s.frame f).binds name = true := by
  induction env with
  | nil => cases h
  | cons g outer ih =>
    rw [Store.owner?] at h
    split at h
    · next hb =>
      cases h
      exact hb
    · exact ih h

theorem assignNearest_consists (name : Token) (env : Env) (v : Value) :
    Consists H m (assignNearest name env v) := by
  unfold assignNearest
  refine .sees (fun _ => rfl) ?_
  cases hf : m.store.owner? env name.lexeme with
  | some f => exact .rebinds (Store.binds_of_owner? hf)
  | none => exact .raise _

theorem finishClass_consists (name : Token) (methods : List FunDecl) (env : Env)
    (parent : Option Class) : Consists H m (finishClass name methods env parent) := by
  refine (methodEnv_consists parent env).bind fun _ _ _ => ?_
  exact Consists.identity.bind fun _ _ _ => assignNearest_consists name env _

theorem declareClass_consists {name : Token} {superclass : Option Reference}
    {methods : List FunDecl} {env : Env} {m₀ : Machine}
    (h : H ⟨n + 1, .execute (.classDecl name superclass methods) env, m₀⟩) :
    Consists H m (declareClass name superclass methods env) := by
  refine (Consists.declares h rfl).bind fun _ _ _ => ?_
  exact (superclassOf_consists superclass env).bind fun parent _ _ =>
    finishClass_consists name methods env parent

theorem argument_consists (f : Native) (args : List Value) :
    Consists H m (Native.argument f args) := by
  cases args <;> exact .ends fun _ => rfl

theorem native_consists {f : Native} {args : List Value} {paren : Token}
    (h : H ⟨n + 1, .apply (.native f) args paren, m⟩) : Consists H m (f.call args paren) := by
  cases f with
  | clock =>
    refine Consists.clock.bind fun shown _ _ => ?_
    cases shown with
    | some => exact .pure _
    | none => exact .raise _
  | print =>
    cases args with
    | nil => exact .ends fun _ => rfl
    | cons v rest => exact .print h
  | read => exact .read h
  | tonumber | tostring | type => exact (argument_consists _ args).bind fun _ _ _ => .pure _
  | sleep =>
    refine (argument_consists .sleep args).bind fun v _ _ => ?_
    cases v with
    | number x =>
      dsimp only
      cases Native.nanoseconds? x with
      | some n => exact Consists.sleeps.bind fun _ _ _ => .pure _
      | none => exact .raise _
    | _ => exact .raise _

theorem returned_consists (f : Closure) (s : Signal) : Consists H m (returned f s) := by
  unfold returned
  split
  · exact readAt_consists f.env 0 hiddenThis
  · cases s <;> exact .pure _

/-! ## 3. Calls -/

/-- A call with the fuel `n` consists of few kinds of things. -/
def CallConsists (H : History) (n : Nat) (m : Machine) : Call → Prop
  | .evaluate e env => Consists H m (evaluate n e env)
  | .evaluateAll es env => Consists H m (evaluateAll n es env)
  | .apply f args paren => Consists H m (apply n f args paren)
  | .invoke f args => Consists H m (invoke n f args)
  | .execute s env => Consists H m (execute n s env)
  | .executeAll ss env => Consists H m (executeAll n ss env)
  | .turns condition increment body env => Consists H m (turns n condition increment body env)

section Functions

/-- The calls that a call makes consist of few kinds of things. -/
def MadeConsist (H : History) (n : Nat) (m : Machine) (c : Call) : Prop :=
  ∀ c' m', Makes n c m c' m' → CallConsists H n m' c'

theorem evaluate_consists {e : Expr} {env : Env} (run : MadeConsist H n m (.evaluate e env)) :
    Consists H m (evaluate (n + 1) e env) := by
  cases e with
  | literal l => exact .pure _
  | group e => exact run _ _ .group
  | unary op e => exact Consists.bind (run _ _ .operand) fun v _ _ => .computed _
  | binary l op r =>
    refine Consists.bind (run _ _ .binaryLeft) fun a m₁ ha => ?_
    exact Consists.bind (run _ _ (.binaryRight ha)) fun b _ _ => .computed _
  | logical l op r =>
    refine Consists.bind (run _ _ .logicalLeft) fun a m₁ ha => ?_
    by_cases hd : decides op a = true
    · rw [if_pos hd]
      exact .pure a
    · rw [if_neg hd]
      exact run _ _ (.logicalRight ha (Bool.eq_false_iff.mpr hd))
  | conditional c yes no =>
    refine Consists.bind (run _ _ .choiceCondition) fun a m₁ ha => ?_
    by_cases ht : a.isTruthy = true
    · rw [if_pos ht]
      exact run _ _ (.choiceYes ha ht)
    · rw [if_neg ht]
      exact run _ _ (.choiceNo ha (Bool.eq_false_iff.mpr ht))
  | read ref | this ref => exact lookUp_consists ref env
  | assign ref e =>
    refine Consists.bind (run _ _ .assigned) fun v _ _ => ?_
    exact (rebind_consists ref env v).bind fun _ _ _ => .pure v
  | call callee paren args =>
    refine Consists.bind (run _ _ .callee) fun f m₁ hf => ?_
    refine Consists.bind (run _ _ (.arguments hf)) fun vs m₂ hvs => ?_
    cases harity : f.arity? with
    | none => exact .raise _
    | some a =>
      show Consists H m₂ (if vs.length = a then apply n f vs paren
        else raise (.arity a vs.length paren.pos))
      by_cases ha : vs.length = a
      · rw [if_pos ha]
        exact run _ _ (.applied hf hvs (ha ▸ harity))
      · rw [if_neg ha]
        exact .raise _
  | get object name =>
    refine Consists.bind (run _ _ .getObject) fun o m₁ ho => ?_
    cases o with
    | object o c => exact property_consists o c name
    | _ => exact .raise _
  | set object name e =>
    refine Consists.bind (run _ _ .setObject) fun o m₁ ho => ?_
    cases o with
    | object o c =>
      refine Consists.bind (run _ _ (.setValue ho)) fun v _ _ => ?_
      exact Consists.field.bind fun _ _ _ => .pure v
    | _ => exact .raise _
  | super ref method => exact superMethod_consists ref method env
  | lambda code => exact newFunction_consists _

theorem evaluateAll_consists {es : List Expr} {env : Env}
    (run : MadeConsist H n m (.evaluateAll es env)) :
    Consists H m (evaluateAll (n + 1) es env) := by
  cases es with
  | nil => exact .pure []
  | cons e rest =>
    refine Consists.bind (run _ _ .first) fun v m₁ hv => ?_
    exact Consists.bind (run _ _ (.others hv)) fun vs _ _ => .pure (v :: vs)

theorem apply_consists {f : Value} {args : List Value} {paren : Token}
    (run : MadeConsist H n m (.apply f args paren)) (h : H ⟨n + 1, .apply f args paren, m⟩) :
    Consists H m (apply (n + 1) f args paren) := by
  cases f with
  | native f => exact native_consists h
  | function i f => exact run _ _ .function
  | ofClass c =>
    refine Consists.object.bind fun o m₁ ho => ?_
    cases hinit : c.method? initializerName with
    | none => exact .pure _
    | some g =>
      refine (bindMethod_consists g (.object o c)).bind fun bound m₂ hb => ?_
      exact Consists.bind (run _ _ (.initializer hinit ho hb)) fun _ _ _ => .pure _
  | nil | bool | number | text | object => exact .raise _

theorem invoke_consists {f : Closure} {args : List Value}
    (run : MadeConsist H n m (.invoke f args)) : Consists H m (invoke (n + 1) f args) := by
  refine Consists.frame.bind fun env m₁ henv => ?_
  exact Consists.bind (run _ _ (.body henv)) fun s _ _ => returned_consists f s

theorem execute_consists {s : Stmt} {env : Env} (run : MadeConsist H n m (.execute s env))
    (h : H ⟨n + 1, .execute s env, m⟩) : Consists H m (execute (n + 1) s env) := by
  cases s with
  | expr e => exact Consists.bind (run _ _ .expression) fun _ _ _ => .pure _
  | varDecl name e =>
    refine Consists.bind (run _ _ .declared) fun v _ _ => ?_
    exact (Consists.declares h rfl).bind fun _ _ _ => .pure _
  | funDecl decl =>
    obtain ⟨name, code⟩ := decl
    refine (newFunction_consists _).bind fun f _ _ => ?_
    exact (Consists.declares h rfl).bind fun _ _ _ => .pure _
  | classDecl name superclass methods =>
    exact (declareClass_consists h).bind fun _ _ _ => .pure _
  | branch condition yes no =>
    refine Consists.bind (run _ _ .branchCondition) fun a m₁ ha => ?_
    by_cases ht : a.isTruthy = true
    · rw [if_pos ht]
      exact run _ _ (.branchYes ha ht)
    · rw [if_neg ht]
      cases no with
      | some no => exact run _ _ (.branchNo ha (Bool.eq_false_iff.mpr ht))
      | none => exact .pure _
  | whileLoop condition body => exact run _ _ .whileTurns
  | forLoop init condition increment body =>
    refine Consists.frame.bind fun inner m₁ hinner => ?_
    cases init with
    | none => exact run _ _ (.bareTurns hinner)
    | some start =>
      refine Consists.bind (run _ _ (.loopStart hinner)) fun r m₂ hr => ?_
      exact run _ _ (.loopTurns hinner hr)
  | block body => exact Consists.frame.bind fun inner m₁ hinner => run _ _ (.block hinner)
  | ret keyword value =>
    cases value with
    | none => exact .pure _
    | some e => exact Consists.bind (run _ _ .returned) fun v _ _ => .pure _
  | leave keyword | next keyword => exact .pure _

theorem executeAll_consists {ss : List Stmt} {env : Env}
    (run : MadeConsist H n m (.executeAll ss env)) :
    Consists H m (executeAll (n + 1) ss env) := by
  cases ss with
  | nil => exact .pure _
  | cons s rest =>
    refine Consists.bind (run _ _ .firstStatement) fun r m₁ hr => ?_
    cases r with
    | normal => exact run _ _ (.otherStatements hr)
    | ret | leave | next => exact .pure _

theorem turns_consists {condition : Expr} {increment : Option Expr} {body : Stmt} {env : Env}
    (run : MadeConsist H n m (.turns condition increment body env)) :
    Consists H m (turns (n + 1) condition increment body env) := by
  refine Consists.bind (run _ _ .turnCondition) fun a m₁ ha => ?_
  by_cases ht : a.isTruthy = true
  · rw [if_pos ht]
    refine Consists.bind (run _ _ (.turnBody ha ht)) fun r m₂ hr => ?_
    -- after the body: out of the function, out of the loop, or on with the loop
    have hon (hg : r.goesOn = true) : Consists H m₂ (goOn n condition increment body env) := by
      cases increment with
      | none => exact run _ _ (.nextBareTurn ha ht hr hg)
      | some i =>
        refine Consists.bind (run _ _ (.turnIncrement ha ht hr hg)) fun v m₃ hv => ?_
        exact run _ _ (.nextTurn ha ht hr hg hv)
    cases r with
    | ret | leave => exact .pure _
    | normal | next => exact hon rfl
  · rw [if_neg ht]
    exact .pure _

end Functions

/-- **Every call of a history** consists of few kinds of things. -/
theorem calls_consist (hclosed : H.Closed) (n : Nat) (c : Call) (m : Machine) (h : H ⟨n, c, m⟩) :
    CallConsists H n m c := by
  induction n generalizing c m with
  | zero => cases c <;> exact .ends fun _ => rfl
  | succ n ih =>
    have run : MadeConsist H n m c := fun c' m' hm => ih c' m' (hclosed n c m c' m' h hm)
    cases c with
    | evaluate => exact evaluate_consists run
    | evaluateAll => exact evaluateAll_consists run
    | apply => exact apply_consists run h
    | invoke => exact invoke_consists run
    | execute => exact execute_consists run h
    | executeAll => exact executeAll_consists run
    | turns => exact turns_consists run

/-! ## 4. Behind a call -/

/-- The machine behind a call with the fuel `n`, whatever it comes to. -/
def machineAfter (n : Nat) (m : Machine) : Call → Machine
  | .evaluate e env => ((evaluate n e env).run m).2
  | .evaluateAll es env => ((evaluateAll n es env).run m).2
  | .apply f args paren => ((apply n f args paren).run m).2
  | .invoke f args => ((invoke n f args).run m).2
  | .execute s env => ((execute n s env).run m).2
  | .executeAll ss env => ((executeAll n ss env).run m).2
  | .turns condition increment body env => ((turns n condition increment body env).run m).2

/-- What is so behind all computations is so behind a call. -/
theorem CallConsists.after {c : Call} {P : Machine → Prop} (h : CallConsists H n m c)
    (hP : ∀ {α : Type} {x : Run α}, Consists H m x → P (x.run m).2) : P (machineAfter n m c) := by
  cases c <;> exact hP h

/-- What goes from each machine to the next goes from the first to the last. -/
theorem run_bind_related {R : Machine → Machine → Prop} {x : Run α} {f : α → Run β}
    (htrans : ∀ m m' m'', R m m' → R m' m'' → R m m'') (hx : R m (x.run m).2)
    (hf : ∀ a m', x.run m = (.ok a, m') → R m' ((f a).run m').2) : R m ((x >>= f).run m).2 := by
  cases hrun : x.run m with
  | mk r m' =>
    rw [hrun] at hx
    cases r with
    | ok a =>
      rw [run_bind_ok hrun]
      exact htrans m m' _ hx (hf a m' hrun)
    | error e =>
      rw [run_bind_error hrun]
      exact hx

theorem Store.size_defineIn (s : Store) (f : FrameId) (name : String) (v : Value) :
    (s.defineIn f name v).frames.size = s.frames.size := Array.size_modify

theorem Store.size_define (s : Store) (env : Env) (name : String) (v : Value) :
    (s.define env name v).frames.size = s.frames.size := by
  cases env with
  | nil => rfl
  | cons f outer => exact s.size_defineIn f name v

/-- The line that shows a value, as bytes. -/
def Value.line (v : Value) : List UInt8 := Text.Utf8.encode (v.display ++ "\n")

/-- Printing changes the sink alone, and fails if the sink does not take the line. -/
theorem print_run (v : Value) (rest : List Value) (paren : Token) (m : Machine) :
    (Native.call .print (v :: rest) paren).run m = (match (m.sink.write v.line).1 with
      | .ok () => .ok .nil
      | .error e => .error (.error (.native e.message paren.pos)),
      { m with sink := (m.sink.write v.line).2 }) := by
  have hwrite : (write (v.display ++ "\n")).run m =
      (.ok (m.sink.write v.line).1, { m with sink := (m.sink.write v.line).2 }) := rfl
  show (do Native.orFailed paren (← write (v.display ++ "\n")); return .nil : Run Value).run m = _
  rw [run_bind_ok hwrite]
  cases (m.sink.write v.line).1 <;> rfl

/-- Reading a line changes the sink and the input, and fails if the line cannot be read. -/
theorem read_run (args : List Value) (paren : Token) (m : Machine) :
    (Native.call .read args paren).run m = (match m.nextLine.1 with
      | .ok line => .ok ((line.map fun text => .text (chomp text)).getD .nil)
      | .error e => .error (.error (.native e.message paren.pos)), m.nextLine.2) := by
  have hread : readLine.run m = (.ok m.nextLine.1, m.nextLine.2) := rfl
  rw [Native.call, run_bind_ok hread]
  cases m.nextLine.1 with
  | error e => rfl
  | ok line => cases line <;> rfl

/-- **Nothing but a call of `read` touches the input.** -/
theorem Consists.input_eq {x : Run α} (h : Consists H m x)
    (hread : ∀ n args paren m, ¬ H ⟨n + 1, .apply (.native .read) args paren, m⟩) :
    (x.run m).2.input = m.input := by
  induction h with
  | ends h => rw [h]
  | sees _ _ ih => exact ih
  | bind _ _ ihx ihf =>
    exact run_bind_related (R := fun m m' => m'.input = m.input) (fun _ _ _ h h' => h'.trans h) ihx ihf
  | frame | object | identity | field | rebinds | declares | clock | sleeps => rfl
  | print => rw [print_run]
  | read h => exact absurd h (hread _ _ _ _)

theorem Consists.distances_eq {x : Run α} (h : Consists H m x) :
    (x.run m).2.distances = m.distances := by
  induction h with
  | ends h => rw [h]
  | sees _ _ ih => exact ih
  | bind _ _ ihx ihf =>
    exact run_bind_related (R := fun m m' => m'.distances = m.distances)
      (fun _ _ _ h h' => h'.trans h) ihx ihf
  | frame | object | identity | field | rebinds | declares | clock | sleeps => rfl
  | print => rw [print_run]
  | @read _ args paren m _ =>
    obtain ⟨sink, input, hm⟩ := nextLine_snd m
    rw [read_run]
    show m.nextLine.2.distances = _
    rw [hm]

theorem Consists.size_le {x : Run α} (h : Consists H m x) :
    m.store.frames.size ≤ (x.run m).2.store.frames.size := by
  induction h with
  | ends h => rw [h]
  | sees _ _ ih => exact ih
  | bind _ _ ihx ihf =>
    exact run_bind_related (R := fun m m' => m.store.frames.size ≤ m'.store.frames.size)
      (fun _ _ _ => Nat.le_trans) ihx ihf
  | frame =>
    refine Nat.le_of_lt ?_
    show _ < (Array.push _ _).size
    rw [Array.size_push]
    exact Nat.lt_succ_self _
  | object | identity | field | clock | sleeps => exact Nat.le_refl _
  | @rebinds m f name v _ => exact Nat.le_of_eq (m.store.size_defineIn f name v).symm
  | @declares _ _ env _ name m v _ _ => exact Nat.le_of_eq (m.store.size_define env name v).symm
  | print => rw [print_run]
  | @read _ args paren m _ =>
    obtain ⟨sink, input, hm⟩ := nextLine_snd m
    rw [read_run]
    show _ ≤ m.nextLine.2.store.frames.size
    rw [hm]

theorem Call.consists (n : Nat) (c : Call) (m : Machine) : CallConsists (fun _ => True) n m c :=
  calls_consist (fun _ _ _ _ _ _ _ => trivial) n c m trivial

/-- **No call gives up a frame.** -/
theorem Call.size_le (n : Nat) (c : Call) (m : Machine) :
    m.store.frames.size ≤ (machineAfter n m c).store.frames.size :=
  (c.consists n m).after (P := fun m' => m.store.frames.size ≤ m'.store.frames.size) Consists.size_le

/-- **No call changes the distances.** -/
theorem Call.distances_eq (n : Nat) (c : Call) (m : Machine) :
    (machineAfter n m c).distances = m.distances :=
  (c.consists n m).after (P := fun m' => m'.distances = m.distances) Consists.distances_eq

end Lox
