import Lox.Proofs.Machine.Parts
import Lox.Proofs.Scope.Origins

/-!
# Where the errors of a running program come from

An error of a program is about a token of the expression or statement that raises it. Two lookups are of
`this` where no token of a source names it (`SeeksThis`); a run in which they succeed has no error that
is about no source.

* `Raises v e node t`: the visit `v` runs the node `node`, which raises the error `e`, and `e` stands where
  the token `t` of the node does.
* `Raising P m x`: on the machine `m`, all errors that `x` stops with are `P`.
* `calls_raise`: **every error that a call of a history stops with** is raised by a node of the history.
-/

namespace Lox

/-! ## 1. Errors of visits -/

/-- The part of a program that a call runs. -/
def Call.node? : Call → Option Node
  | .evaluate e _ => some (.expr e)
  | .execute s _ => some (.stmt s)
  | .evaluateAll .. | .apply .. | .invoke .. | .executeAll .. | .turns .. => none

/-- The error of the program that a computation stopped with. -/
def errorOf {α : Type} : Except Stop α → Option RuntimeError
  | .error (.error e) => some e
  | .error (.fault _) | .error .starved | .ok _ => none

/-- The error of the program that a call with the fuel `n` stops with. -/
def errorIn (n : Nat) (m : Machine) : Call → Option RuntimeError
  | .evaluate e env => errorOf ((evaluate n e env).run m).1
  | .evaluateAll es env => errorOf ((evaluateAll n es env).run m).1
  | .apply f args paren => errorOf ((apply n f args paren).run m).1
  | .invoke f args => errorOf ((invoke n f args).run m).1
  | .execute s env => errorOf ((execute n s env).run m).1
  | .executeAll ss env => errorOf ((executeAll n ss env).run m).1
  | .turns condition increment body env => errorOf ((turns n condition increment body env).run m).1

/-- The error of the program that a visit stops with. -/
def Visit.error? (v : Visit) : Option RuntimeError := errorIn v.fuel v.machine v.call

/-- **A visit of a node raises an error**: it stops with the error, and no visit of a node that it leads to
    does. The error stands where a token of the node does. -/
structure Raises (v : Visit) (e : RuntimeError) (node : Node) (t : Token) : Prop where
  runs : v.call.node? = some node
  stops : v.error? = some e
  innermost : ∀ u, Leads v u → u ≠ v → u.call.node?.isSome → u.error? ≠ some e
  blamed : t ∈ node.blamed
  pos : e.pos = t.pos

/-- A visit of a history raised an error. -/
def Raised (H : History) (e : RuntimeError) : Prop := ∃ v node t, H v ∧ Raises v e node t

/-- **A visit looks `this` up** where no source names it, in a frame of an environment: for what an
    initializer comes to, or in front of the class that `super` means. -/
inductive SeeksThis : Visit → (env : Env) → (distance : Nat) → Machine → Prop where
  | initializer {n f args m env m' s m''} (hf : f.isInitializer = true)
      (hframe : (newFrame f.env (parameterBindings f args)).run m = (.ok env, m'))
      (hbody : (executeAll n f.code.body env).run m' = (.ok s, m'')) :
      SeeksThis ⟨n + 1, .invoke f args, m⟩ f.env 0 m''
  | super {n ref name env m nearer c m'} (hd : m.distances.find? ref.id = some (nearer + 1))
      (hclass : (readAt env (nearer + 1) ref.token).run m = (.ok (.ofClass c), m')) :
      SeeksThis ⟨n + 1, .evaluate (.super ref name) env, m⟩ env nearer m'

/-- All lookups of `this` that no source names succeed. -/
def FindsThis (H : History) : Prop :=
  ∀ v env d m, H v → SeeksThis v env d m → ∃ u, (readAt env d hiddenThis).run m = (.ok u, m)

/-! ## 2. Errors of computations -/

/-- **All errors that a computation stops with**, on a machine, are `P`. -/
def Raising {α : Type} (P : RuntimeError → Prop) (m : Machine) (x : Run α) : Prop :=
  ∀ e m', x.run m = (.error (.error e), m') → P e

section Logic

variable {α β : Type} {P Q : RuntimeError → Prop} {m : Machine} {x : Run α} {f : α → Run β}

namespace Raising

theorem pure (a : α) : Raising P m (Pure.pure a : Run α) := fun _ _ h => nomatch h

theorem fault (f : Fault) : Raising P m (throw (.fault f) : Run α) := fun _ _ h => nomatch h

theorem starved : Raising P m (outOfFuel : Run α) := fun _ _ h => nomatch h

theorem raise {e : RuntimeError} (h : P e) : Raising P m (raise e : Run α) := fun _ _ he => by
  cases he
  exact h

theorem of_ok {a : α} {m' : Machine} (h : x.run m = (.ok a, m')) : Raising P m x := fun _ _ he => by
  rw [h] at he
  cases he

theorem bind (hx : Raising P m x) (hf : ∀ a m', x.run m = (.ok a, m') → Raising P m' (f a)) :
    Raising P m (x >>= f) := fun e m' h => by
  rcases error_of_run_bind h with h | ⟨a, m₁, ha, h⟩
  · exact hx e m' h
  · exact hf a m₁ ha e m' h

theorem mono (h : Raising P m x) (hPQ : ∀ e, P e → Q e) : Raising Q m x := fun e m' he =>
  hPQ e (h e m' he)

theorem congr {y : Run α} (hrun : x.run m = y.run m) (h : Raising P m y) : Raising P m x :=
  fun e m' he => h e m' (hrun ▸ he)

end Raising

theorem raising_of_errorOf (h : ∀ e, errorOf (x.run m).1 = some e → P e) : Raising P m x :=
  fun e m' he => h e (by rw [he]; rfl)

theorem Raising.errorOf (h : Raising P m x) {e : RuntimeError} (he : errorOf (x.run m).1 = some e) :
    P e := by
  rcases hrun : x.run m with ⟨(e' | _ | _) | _, m'⟩ <;> rw [hrun] at he <;> cases he
  exact h e m' hrun

end Logic

/-! ## 3. Parts that run nothing themselves -/

/-- An error that stands where a token does. -/
def StandsWith (t : Token) (e : RuntimeError) : Prop := e.pos = t.pos

section Parts

variable {α : Type} {m : Machine} {t : Token}

theorem accessed_raising (r : Except AccessError α) : Raising (StandsWith t) m (accessed t r) := by
  cases r with
  | ok a => exact .pure a
  | error e =>
    cases e with
    | unbound => exact .raise rfl
    | overshoot => exact .fault _

theorem readAt_raising (env : Env) (d : Nat) : Raising (StandsWith t) m (readAt env d t) :=
  accessed_raising (m.store.getAt env d t.lexeme)

theorem lookUp_raising (ref : Reference) (env : Env) :
    Raising (StandsWith ref.token) m (lookUp ref env) := by
  refine .congr (run_lookUp ref env m) ?_
  cases m.distances.find? ref.id with
  | some d => exact readAt_raising env d
  | none =>
    cases m.store.get? Store.globals ref.name with
    | some v => exact .pure v
    | none => exact .raise rfl

theorem ownerOf_raising (ref : Reference) (env : Env) :
    Raising (StandsWith ref.token) m (ownerOf ref env) := by
  refine .congr (run_ownerOf ref env m) ?_
  cases m.distances.find? ref.id with
  | some d => exact accessed_raising _
  | none =>
    dsimp only
    cases m.store.owner? Store.globals ref.name with
    | some f => exact .pure f
    | none => exact .raise rfl

theorem rebind_raising (ref : Reference) (env : Env) (v : Value) :
    Raising (StandsWith ref.token) m (rebind ref env v) :=
  (ownerOf_raising ref env).bind fun _ _ _ => .of_ok rfl

theorem methodOr_raising (c : Class) (name : Token) (o : ObjectId) (d : Class) :
    Raising (StandsWith name) m (methodOr c name o d) := by
  unfold methodOr
  cases c.method? name.lexeme with
  | some f => exact .of_ok rfl
  | none => exact .raise rfl

theorem property_raising (o : ObjectId) (c : Class) (name : Token) :
    Raising (StandsWith name) m (property o c name) := by
  refine .congr (run_property o c name m) ?_
  cases (m.store.fields o).find? name.lexeme with
  | some v => exact .pure v
  | none => exact methodOr_raising c name o c

theorem superclassOf_raising (superclass : Option Reference) (env : Env) :
    Raising (fun e => ∃ ref ∈ superclass, StandsWith ref.token e) m (superclassOf superclass env) := by
  cases superclass with
  | none => exact .pure none
  | some ref =>
    refine ((lookUp_raising ref env).mono fun e he => ⟨ref, rfl, he⟩).bind fun v _ _ => ?_
    cases v with
    | ofClass c => exact .pure (some c)
    | _ => exact .raise ⟨ref, rfl, rfl⟩

theorem assignNearest_raising (name : Token) (env : Env) (v : Value) :
    Raising (StandsWith name) m (assignNearest name env v) := by
  refine .congr (run_assignNearest name env v m) ?_
  split
  · exact .of_ok rfl
  · exact .raise rfl

theorem finishClass_raising (name : Token) (methods : List FunDecl) (env : Env)
    (parent : Option Class) : Raising (StandsWith name) m (finishClass name methods env parent) := by
  have hbind (inner : Env) (m₁ : Machine) : Raising (StandsWith name) m₁
      (bindClass name parent (Bindings.ofPairs (methods.map (methodOf inner))) env) :=
    Raising.bind (.of_ok rfl) fun _ _ _ => assignNearest_raising name env _
  cases parent with
  | none => exact hbind env m
  | some c => exact Raising.bind (.of_ok rfl) fun inner m₁ _ => hbind inner m₁

theorem declareClass_raising (name : Token) (superclass : Option Reference) (methods : List FunDecl)
    (env : Env) :
    Raising (fun e => ∃ t ∈ (Node.stmt (.classDecl name superclass methods)).blamed, StandsWith t e) m
      (declareClass name superclass methods env) := by
  refine Raising.bind (.of_ok rfl) fun _ m₁ _ => Raising.bind ?_ fun parent m₂ _ => ?_
  · refine (superclassOf_raising superclass env).mono fun e he => ?_
    obtain ⟨ref, href, he⟩ := he
    exact ⟨ref.token, List.mem_cons_of_mem _ (List.mem_map_of_mem (Option.mem_toList.mpr href)), he⟩
  · have hfinish := finishClass_raising (m := m₂) name methods env parent
    exact hfinish.mono fun e he => ⟨name, List.mem_cons_self, he⟩

theorem orFailed_raising (paren : Token) (r : Except ConsoleError α) :
    Raising (StandsWith paren) m (Native.orFailed paren r) := by
  cases r with
  | ok a => exact .pure a
  | error e => exact .raise rfl

theorem argument_raising (P : RuntimeError → Prop) (f : Native) (args : List Value) :
    Raising P m (Native.argument f args) := by
  cases args with
  | nil => exact .fault _
  | cons v rest => exact .pure v

/-- A native function fails where its call stands. -/
theorem native_raising (f : Native) (args : List Value) (paren : Token) :
    Raising (StandsWith paren) m (f.call args paren) := by
  cases f with
  | clock =>
    refine Raising.bind (.of_ok rfl) fun shown _ _ => ?_
    cases shown with
    | some => exact .pure _
    | none => exact .raise rfl
  | print =>
    refine (argument_raising _ _ args).bind fun v m₁ _ => ?_
    refine Raising.bind (.of_ok rfl) fun r m₂ _ => ?_
    exact (orFailed_raising paren r).bind fun _ _ _ => .pure _
  | read =>
    refine Raising.bind (.of_ok rfl) fun r m₁ _ => ?_
    refine (orFailed_raising paren r).bind fun line m₂ _ => ?_
    cases line <;> exact .pure _
  | tonumber | tostring | type => exact (argument_raising _ _ args).bind fun _ _ _ => .pure _
  | sleep =>
    refine (argument_raising _ _ args).bind fun v m₁ _ => ?_
    cases v with
    | number x =>
      dsimp only
      cases Native.nanoseconds? x with
      | some n => exact Raising.bind (.of_ok rfl) fun _ _ _ => .pure _
      | none => exact .raise rfl
    | _ => exact .raise rfl

/-- An operator fails where it stands. -/
def Computed.FailsAt (c : Computed) (t : Token) : Prop := ∀ e, c = .error (.error e) → StandsWith t e

theorem Computed.FailsAt.raising {c : Computed} (h : c.FailsAt t) :
    Raising (StandsWith t) m (liftM c : Run Value) := by
  rcases c with (e | f | _) | v
  · exact .raise (h e rfl)
  · exact .fault f
  · exact .starved
  · exact .pure v

theorem failsAt_ok (v : Value) : Computed.FailsAt (.ok v) t := fun _ h => nomatch h

theorem failsAt_wrongType (message : String) : Computed.FailsAt (wrongType message t) t :=
  fun _ h => by
  cases h
  rfl

theorem onNumbers_failsAt {f : Float → Float → Computed} (hf : ∀ x y, (f x y).FailsAt t)
    (a b : Value) : Computed.FailsAt (onNumbers t f a b) t := by
  unfold onNumbers
  split
  · exact hf _ _
  · exact failsAt_wrongType _

theorem plus_failsAt (a b : Value) : Computed.FailsAt (plus t a b) t := by
  unfold plus
  split
  · exact failsAt_ok _
  · exact failsAt_ok _
  · exact failsAt_wrongType _

theorem quotient_failsAt (x y : Float) : Computed.FailsAt (quotient t x y) t := by
  unfold quotient
  split
  · intro e he
    cases he
    rfl
  · exact failsAt_ok _

theorem binaryValue_failsAt (op : Token) (a b : Value) : (binaryValue op a b).FailsAt op := by
  unfold binaryValue
  split
  · exact failsAt_ok b
  · exact plus_failsAt a b
  · exact onNumbers_failsAt (fun _ _ => failsAt_ok _) a b
  · exact onNumbers_failsAt (fun _ _ => failsAt_ok _) a b
  · exact onNumbers_failsAt quotient_failsAt a b
  · exact onNumbers_failsAt (fun _ _ => failsAt_ok _) a b
  · exact onNumbers_failsAt (fun _ _ => failsAt_ok _) a b
  · exact onNumbers_failsAt (fun _ _ => failsAt_ok _) a b
  · exact onNumbers_failsAt (fun _ _ => failsAt_ok _) a b
  · exact failsAt_ok _
  · exact failsAt_ok _
  · exact fun _ h => nomatch h

theorem unaryValue_failsAt (op : Token) (v : Value) : (unaryValue op v).FailsAt op := by
  unfold unaryValue
  split
  · exact failsAt_ok _
  · exact failsAt_wrongType _
  · exact failsAt_ok _
  · exact fun _ h => nomatch h

end Parts

/-! ## 4. Calls -/

section Functions

variable {H : History} {n : Nat} {m : Machine}

/-- An error that a visit of the history raised, or one about a token of a node. -/
def RaisedBy (H : History) (node : Node) (e : RuntimeError) : Prop :=
  Raised H e ∨ ∃ t ∈ node.blamed, StandsWith t e

theorem Raising.own {α : Type} {x : Run α} {node : Node} {t : Token} (h : Raising (StandsWith t) m x)
    (ht : t ∈ node.blamed) : Raising (RaisedBy H node) m x := h.mono fun _ he => .inr ⟨t, ht, he⟩

/-- The errors that a call with the fuel `n` stops with were raised in the history; those of a native
    function stand where its call does. -/
def CallRaises (H : History) (n : Nat) (m : Machine) : Call → Prop
  | .evaluate e env => Raising (Raised H) m (evaluate n e env)
  | .evaluateAll es env => Raising (Raised H) m (evaluateAll n es env)
  | .apply f args paren => Raising (fun e => Raised H e ∨ StandsWith paren e) m (apply n f args paren)
  | .invoke f args => Raising (Raised H) m (invoke n f args)
  | .execute s env => Raising (Raised H) m (execute n s env)
  | .executeAll ss env => Raising (Raised H) m (executeAll n ss env)
  | .turns condition increment body env =>
    Raising (Raised H) m (turns n condition increment body env)

/-- The errors of the calls that a call makes were raised in the history. -/
def MadeRaise (H : History) (n : Nat) (m : Machine) (c : Call) : Prop :=
  ∀ c' m', Makes n c m c' m' → CallRaises H n m' c'

theorem superMethod_raising {ref : Reference} {method : Token} {env : Env}
    (hthis : FindsThis H) (h : H ⟨n + 1, .evaluate (.super ref method) env, m⟩) :
    Raising (RaisedBy H (.expr (.super ref method))) m (superMethod ref method env) := by
  refine .congr (run_superMethod ref method env m) ?_
  cases hd : m.distances.find? ref.id with
  | none => exact .fault _
  | some distance =>
    refine ((readAt_raising env distance).own List.mem_cons_self).bind fun v m₁ hv => ?_
    cases v with
    | ofClass c =>
      cases distance with
      | zero => exact .fault _
      | succ nearer =>
        obtain ⟨u, hu⟩ := hthis _ env nearer m₁ h (.super hd hv)
        refine Raising.bind (.of_ok hu) fun this m₂ _ => ?_
        cases this with
        | object o d =>
          exact (methodOr_raising c method o d).own (List.mem_cons_of_mem _ (List.mem_singleton_self _))
        | _ => exact .fault _
    | _ => exact .fault _

theorem evaluate_raises {e : Expr} {env : Env} (hthis : FindsThis H)
    (h : H ⟨n + 1, .evaluate e env, m⟩) (run : MadeRaise H n m (.evaluate e env)) :
    Raising (RaisedBy H (.expr e)) m (evaluate (n + 1) e env) := by
  -- the parts that are run, whose errors were raised before
  have part {α : Type} {x : Run α} {m' : Machine} (hx : Raising (Raised H) m' x) :
      Raising (RaisedBy H (.expr e)) m' x := hx.mono fun _ => .inl
  cases e with
  | literal l => exact .pure _
  | group e => exact part (run _ _ .group)
  | unary op e =>
    refine Raising.bind (part (run _ _ .operand)) fun v _ _ => ?_
    exact (unaryValue_failsAt op v).raising.own List.mem_cons_self
  | binary l op r =>
    refine Raising.bind (part (run _ _ .binaryLeft)) fun a m₁ ha => ?_
    refine Raising.bind (part (run _ _ (.binaryRight ha))) fun b _ _ => ?_
    exact (binaryValue_failsAt op a b).raising.own List.mem_cons_self
  | logical l op r =>
    refine Raising.bind (part (run _ _ .logicalLeft)) fun a m₁ ha => ?_
    by_cases hd : decides op a = true
    · rw [if_pos hd]
      exact .pure a
    · rw [if_neg hd]
      exact part (run _ _ (.logicalRight ha (Bool.eq_false_iff.mpr hd)))
  | conditional c yes no =>
    refine Raising.bind (part (run _ _ .choiceCondition)) fun a m₁ ha => ?_
    by_cases ht : a.isTruthy = true
    · rw [if_pos ht]
      exact part (run _ _ (.choiceYes ha ht))
    · rw [if_neg ht]
      exact part (run _ _ (.choiceNo ha (Bool.eq_false_iff.mpr ht)))
  | read ref | this ref => exact (lookUp_raising ref env).own List.mem_cons_self
  | assign ref e =>
    refine Raising.bind (part (run _ _ .assigned)) fun v _ _ => ?_
    exact ((rebind_raising ref env v).own List.mem_cons_self).bind fun _ _ _ => .pure v
  | call callee paren args =>
    refine Raising.bind (part (run _ _ .callee)) fun f m₁ hf => ?_
    refine Raising.bind (part (run _ _ (.arguments hf))) fun vs m₂ hvs => ?_
    cases harity : f.arity? with
    | none => exact .raise (.inr ⟨paren, List.mem_cons_self, rfl⟩)
    | some a =>
      show Raising _ m₂ (if vs.length = a then apply n f vs paren
        else raise (.arity a vs.length paren.pos))
      by_cases ha : vs.length = a
      · rw [if_pos ha]
        have happly : Raising _ m₂ (apply n f vs paren) := run _ _ (.applied hf hvs (ha ▸ harity))
        exact happly.mono fun _ he => he.imp id fun he => ⟨paren, List.mem_cons_self, he⟩
      · rw [if_neg ha]
        exact .raise (.inr ⟨paren, List.mem_cons_self, rfl⟩)
  | get object name =>
    refine Raising.bind (part (run _ _ .getObject)) fun o m₁ ho => ?_
    cases o with
    | object o c => exact (property_raising o c name).own List.mem_cons_self
    | _ => exact .raise (.inr ⟨name, List.mem_cons_self, rfl⟩)
  | set object name e =>
    refine Raising.bind (part (run _ _ .setObject)) fun o m₁ ho => ?_
    cases o with
    | object o c =>
      refine Raising.bind (part (run _ _ (.setValue ho))) fun v _ _ => ?_
      exact Raising.bind (.of_ok rfl) fun _ _ _ => .pure v
    | _ => exact .raise (.inr ⟨name, List.mem_cons_self, rfl⟩)
  | super ref method => exact superMethod_raising hthis h
  | lambda code => exact .of_ok rfl

theorem evaluateAll_raises {es : List Expr} {env : Env}
    (run : MadeRaise H n m (.evaluateAll es env)) :
    Raising (Raised H) m (evaluateAll (n + 1) es env) := by
  cases es with
  | nil => exact .pure []
  | cons e rest =>
    refine Raising.bind (run _ _ .first) fun v m₁ hv => ?_
    exact Raising.bind (run _ _ (.others hv)) fun vs _ _ => .pure (v :: vs)

theorem apply_raises {f : Value} {args : List Value} {paren : Token}
    (run : MadeRaise H n m (.apply f args paren)) :
    Raising (fun e => Raised H e ∨ StandsWith paren e) m (apply (n + 1) f args paren) := by
  cases f with
  | native f => exact (native_raising f args paren).mono fun _ => .inr
  | function i f => exact Raising.mono (run _ _ .function) fun _ => .inl
  | ofClass c =>
    refine Raising.bind (.of_ok rfl) fun o m₁ ho => ?_
    cases hinit : c.method? initializerName with
    | none => exact .pure _
    | some g =>
      refine Raising.bind (.of_ok rfl) fun bound m₂ hb => ?_
      have hcall : Raising (Raised H) m₂ (invoke n bound args) := run _ _ (.initializer hinit ho hb)
      exact (hcall.mono fun _ => .inl).bind fun _ _ _ => .pure _
  | nil | bool | number | text | object => exact .raise (.inr rfl)

/-- What an initializer comes to is there, and other functions come to what they return. -/
theorem invoke_raises {f : Closure} {args : List Value} (hthis : FindsThis H)
    (h : H ⟨n + 1, .invoke f args, m⟩) (run : MadeRaise H n m (.invoke f args)) :
    Raising (Raised H) m (invoke (n + 1) f args) := by
  refine Raising.bind (.of_ok rfl) fun env m₁ henv => ?_
  refine Raising.bind (run _ _ (.body henv)) fun s m₂ hs => ?_
  unfold returned
  split
  · next hf =>
    obtain ⟨u, hu⟩ := hthis _ f.env 0 m₂ h (.initializer hf henv hs)
    exact .of_ok hu
  · cases s <;> exact .pure _

theorem execute_raises {s : Stmt} {env : Env} (run : MadeRaise H n m (.execute s env)) :
    Raising (RaisedBy H (.stmt s)) m (execute (n + 1) s env) := by
  have part {α : Type} {x : Run α} {m' : Machine} (hx : Raising (Raised H) m' x) :
      Raising (RaisedBy H (.stmt s)) m' x := hx.mono fun _ => .inl
  cases s with
  | expr e => exact Raising.bind (part (run _ _ .expression)) fun _ _ _ => .pure _
  | varDecl name e =>
    refine Raising.bind (part (run _ _ .declared)) fun v _ _ => ?_
    exact Raising.bind (.of_ok rfl) fun _ _ _ => .pure _
  | funDecl decl =>
    obtain ⟨name, code⟩ := decl
    exact .of_ok rfl
  | classDecl name superclass methods =>
    refine Raising.bind ((declareClass_raising name superclass methods env).mono fun _ => .inr) ?_
    exact fun _ _ _ => .pure _
  | branch condition yes no =>
    refine Raising.bind (part (run _ _ .branchCondition)) fun a m₁ ha => ?_
    by_cases ht : a.isTruthy = true
    · rw [if_pos ht]
      exact part (run _ _ (.branchYes ha ht))
    · rw [if_neg ht]
      cases no with
      | some no => exact part (run _ _ (.branchNo ha (Bool.eq_false_iff.mpr ht)))
      | none => exact .pure _
  | whileLoop condition body => exact part (run _ _ .whileTurns)
  | forLoop init condition increment body =>
    refine Raising.bind (.of_ok rfl) fun inner m₁ hinner => ?_
    cases init with
    | none => exact part (run _ _ (.bareTurns hinner))
    | some start =>
      refine Raising.bind (part (run _ _ (.loopStart hinner))) fun r m₂ hr => ?_
      exact part (run _ _ (.loopTurns hinner hr))
  | block body => exact Raising.bind (.of_ok rfl) fun inner m₁ hinner => part (run _ _ (.block hinner))
  | ret keyword value =>
    cases value with
    | none => exact .pure _
    | some e => exact Raising.bind (part (run _ _ .returned)) fun v _ _ => .pure _
  | leave keyword | next keyword => exact .pure _

theorem executeAll_raises {ss : List Stmt} {env : Env} (run : MadeRaise H n m (.executeAll ss env)) :
    Raising (Raised H) m (executeAll (n + 1) ss env) := by
  cases ss with
  | nil => exact .pure _
  | cons s rest =>
    refine Raising.bind (run _ _ .firstStatement) fun r m₁ hr => ?_
    cases r with
    | normal => exact run _ _ (.otherStatements hr)
    | ret | leave | next => exact .pure _

theorem turns_raises {condition : Expr} {increment : Option Expr} {body : Stmt} {env : Env}
    (run : MadeRaise H n m (.turns condition increment body env)) :
    Raising (Raised H) m (turns (n + 1) condition increment body env) := by
  refine Raising.bind (run _ _ .turnCondition) fun a m₁ ha => ?_
  by_cases ht : a.isTruthy = true
  · rw [if_pos ht]
    refine Raising.bind (run _ _ (.turnBody ha ht)) fun r m₂ hr => ?_
    -- after the body: out of the function, out of the loop, or on with the loop
    have hon (hg : r.goesOn = true) : Raising (Raised H) m₂ (goOn n condition increment body env) := by
      cases increment with
      | none => exact run _ _ (.nextBareTurn ha ht hr hg)
      | some i =>
        refine Raising.bind (run _ _ (.turnIncrement ha ht hr hg)) fun v m₃ hv => ?_
        exact run _ _ (.nextTurn ha ht hr hg hv)
    cases r with
    | ret | leave => exact .pure _
    | normal | next => exact hon rfl
  · rw [if_neg ht]
    exact .pure _

/-- What a visit leads to is in its history, and has less fuel but for the visit itself. -/
theorem History.Closed.leads (hclosed : H.Closed) {v u : Visit} (hv : H v) (h : Leads v u) :
    H u ∧ (u = v ∨ u.fuel < v.fuel) := by
  induction h with
  | refl => exact ⟨hv, .inl rfl⟩
  | @makes n c m c' m' _ hm ih =>
    obtain ⟨hu, hfuel⟩ := ih
    refine ⟨hclosed n c m c' m' hu hm, .inr ?_⟩
    rcases hfuel with rfl | hlt
    · exact Nat.lt_succ_self n
    · exact Nat.lt_of_succ_lt hlt

/-- The errors of a node that a visit runs were raised in the history. -/
theorem CallRaises.raised {v : Visit} (h : CallRaises H v.fuel v.machine v.call)
    (hnode : v.call.node?.isSome) {e : RuntimeError} (he : v.error? = some e) : Raised H e := by
  obtain ⟨n, c, m⟩ := v
  cases c with
  | evaluate | execute => exact Raising.errorOf h he
  | evaluateAll | apply | invoke | executeAll | turns => cases hnode

/-- **What a visit of a node stops with** was raised by the innermost node that stops with it. -/
theorem RaisedBy.raised {v : Visit} {node : Node} {e : RuntimeError} (he : RaisedBy H node e)
    (hv : H v) (hnode : v.call.node? = some node) (hstops : v.error? = some e)
    (hinner : ∀ u, Leads v u → u ≠ v → u.call.node?.isSome → u.error? = some e → Raised H e) :
    Raised H e := by
  rcases he with he | ⟨t, ht, he⟩
  · exact he
  by_cases hsome : ∃ u, Leads v u ∧ u ≠ v ∧ u.call.node?.isSome ∧ u.error? = some e
  · obtain ⟨u, hl, hne, hu, hue⟩ := hsome
    exact hinner u hl hne hu hue
  · exact ⟨v, node, t, hv, hnode, hstops, fun u hl hne hu hue => hsome ⟨u, hl, hne, hu, hue⟩, ht, he⟩

/-- **Every error that a call of a history stops with** was raised by a node of the history. -/
theorem calls_raise (hclosed : H.Closed) (hthis : FindsThis H) (n : Nat) (c : Call) (m : Machine)
    (h : H ⟨n, c, m⟩) : CallRaises H n m c := by
  induction n using Nat.strong_induction_on generalizing c m with
  | _ n ih =>
  cases n with
  | zero => cases c <;> exact .starved
  | succ n =>
    have run : MadeRaise H n m c := fun c' m' hm =>
      ih n (Nat.lt_succ_self n) c' m' (hclosed n c m c' m' h hm)
    -- what the call leads to has less fuel
    have inner (e : RuntimeError) (u : Visit) (hl : Leads ⟨n + 1, c, m⟩ u) (hne : u ≠ ⟨n + 1, c, m⟩)
        (hnode : u.call.node?.isSome) (he : u.error? = some e) : Raised H e := by
      obtain ⟨hu, hfuel⟩ := hclosed.leads h hl
      exact CallRaises.raised (ih u.fuel (hfuel.resolve_left hne) u.call u.machine hu) hnode he
    cases c with
    | evaluate e env =>
      refine raising_of_errorOf fun err he => ?_
      exact ((evaluate_raises hthis h run).errorOf he).raised h rfl he (inner err)
    | evaluateAll => exact evaluateAll_raises run
    | apply => exact apply_raises run
    | invoke => exact invoke_raises hthis h run
    | execute s env =>
      refine raising_of_errorOf fun err he => ?_
      exact ((execute_raises run).errorOf he).raised h rfl he (inner err)
    | executeAll => exact executeAll_raises run
    | turns => exact turns_raises run

end Functions

end Lox
