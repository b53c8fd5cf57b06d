import Lox.Proofs.Likeness.Runs
import Lox.Proofs.Machine.Parts

/-!
# Parts of the interpreter on machines that are alike

Functions, classes, native functions and operators: each of them, on what is alike, makes what is alike.
Programs run in none of them.
-/

namespace Lox

variable {L : Likeness} {κs : List Renaming}

/-! ## 1. Functions and methods -/

section Functions

variable {keys : List Renaming} {env : Env}

/-- Two environments, which are one environment, with the renamings `keys`. -/
def EnvLike (keys : List Renaming) (κs : List Renaming) (env env' : Env) : Prop :=
  env' = env ∧ EnvKeys κs env keys

theorem newFrame_like (henv : EnvKeys κs env keys) (r : Renaming) {b b' : Bindings Value}
    (hb : BindingsLike (ValueLike L κs) r b b') :
    RunsLike L κs (EnvLike (r :: keys)) (newFrame env b) (newFrame env b') := by
  intro m m' hm
  refine ⟨κs ++ [r], List.prefix_append _ _, hm.push r hb, .ok ⟨?_, ?_⟩⟩
  · show m'.store.frames.size :: env = m.store.frames.size :: env
    rw [hm.count, hm.count']
  · show EnvKeys (κs ++ [r]) (m.store.frames.size :: env) (r :: keys)
    rw [hm.count]
    exact .cons List.getElem?_concat_length (henv.mono (List.prefix_append _ _))

theorem newFunction_like {f f' : Closure} (hf : FunctionLike L κs f f') :
    RunsLike L κs (ValueLike L) (newFunction f) (newFunction f') := by
  intro m m' hm
  have hrun := newFunction_run (m := m') f'
  rw [hm.nextIdentity] at hrun
  exact .of_run (newFunction_run f) hrun hm.newIdentity (.ok (.function hf))

/-- A bound method has the frame of `this` that its program expects. -/
theorem bindMethod_like {f f' : Closure} (hf : MethodLike L κs f f') {v v' : Value}
    (hv : ValueLike L κs v v') :
    RunsLike L κs (FunctionLike L) (bindMethod f v) (bindMethod f' v') := by
  obtain ⟨keys, hkeys, hcode⟩ := hf.code
  have hthis : BindingsLike (ValueLike L κs) .same [(thisName, v)] [(thisName, v')] :=
    .single hv
  rw [bindMethod, bindMethod, hf.env]
  refine (newFrame_like hkeys .same hthis).bind fun κs₁ env env' _ henv => .pure ?_
  exact ⟨hf.name, henv.1, hf.isInitializer, _, henv.2, hcode⟩

theorem boundMethod_like {f f' : Closure} (hf : MethodLike L κs f f') {v v' : Value}
    (hv : ValueLike L κs v v') :
    RunsLike L κs (ValueLike L) (boundMethod f v) (boundMethod f' v') :=
  (bindMethod_like hf hv).bind fun _ _ _ _ hg => newFunction_like hg

/-- A method that two classes may have, bound to an instance. -/
theorem methodOr_like {c c' d d' : Class} (hc : ClassLike L κs c c') (hd : ClassLike L κs d d')
    {o : ObjectId} {name name' : Token} (hname : L.Token name name') :
    RunsLike L κs (ValueLike L) (methodOr c name o d) (methodOr c' name' o d') := by
  unfold methodOr
  rw [hname.lexeme]
  have hfind := hc.method? name.lexeme
  generalize c.method? name.lexeme = f, c'.method? name.lexeme = f' at hfind ⊢
  cases hfind with
  | none => exact .raise (.undefinedProperty hname.pos)
  | some hf => exact boundMethod_like hf (.object hd)

theorem property_like {c c' : Class} (hc : ClassLike L κs c c') {o : ObjectId} {name name' : Token}
    (hname : L.Token name name') :
    RunsLike L κs (ValueLike L) (property o c name) (property o c' name') := by
  intro m m' hm
  have hfield := (hm.fields o).find? name.lexeme
  rw [Renaming.same_new] at hfield
  refine RunsLikeAt.congr ?_ (run_property o c name m) (run_property o c' name' m')
  have hmethod := methodOr_like (o := o) hc hc hname
  rw [hname.lexeme]
  generalize (m.store.fields o).find? name.lexeme = v, (m'.store.fields o).find? name.lexeme = v'
    at hfield ⊢
  cases hfield with
  | some hv => exact RunsLike.pure hv m m' hm
  | none => exact hmethod m m' hm

/-- The method of a superclass, once the class is known. -/
theorem superMethodOf_like (henv : EnvKeys κs env keys) {c c' : Class} (hc : ClassLike L κs c c')
    {method method' : Token} (hmethod : L.Token method method') (nearer : Nat) :
    RunsLike L κs (ValueLike L) (superMethodOf c method env nearer)
      (superMethodOf c' method' env nearer) := by
  refine (readAt_like henv fun r _ => hiddenThis_like r).bind fun κs₁ v v' hκ hv => ?_
  cases hv with
  | object hd => exact methodOr_like (hc.mono (.refl L) hκ) hd hmethod
  | _ => exact .fault

theorem superMethod_like (henv : EnvKeys κs env keys) {ref ref' : Reference}
    (href : L.ref keys ref ref') {method method' : Token} (hmethod : L.Token method method') :
    RunsLike L κs (ValueLike L) (superMethod ref method env) (superMethod ref' method' env) := by
  intro m m' hm
  obtain ⟨hd', hname⟩ := hm.refs href
  refine RunsLikeAt.congr ?_ (run_superMethod ref method env m) (run_superMethod ref' method' env m')
  rw [hd']
  cases hd : m.distances.find? ref.id with
  | none => exact .of_run rfl rfl hm (.error .fault)
  | some d =>
    have hread := readAt_like (L := L) henv fun r hr => nameLike_at href hname hd hr
    refine RunsLike.bind hread (fun κs₁ v v' hκ hv => ?_) m m' hm
    cases hv with
    | ofClass hc =>
      cases d with
      | zero => exact .fault
      | succ nearer => exact superMethodOf_like (henv.mono hκ) hc hmethod nearer
    | _ => exact .fault

end Functions

/-! ## 2. Classes -/

section Classes

variable {keys : List Renaming} {env : Env}

theorem methods_like {inner : Env} {innerKeys : List Renaming}
    (henv : EnvKeys κs inner innerKeys) {ms ms' : List FunDecl}
    (h : MethodsLike L (.same :: innerKeys) ms ms') :
    BindingsLike (MethodLike L κs) .same (Bindings.ofPairs (ms.map (methodOf inner)))
      (Bindings.ofPairs (ms'.map (methodOf inner))) := by
  refine .ofPairs ?_
  generalize hkeys : Renaming.same :: innerKeys = around at h
  induction ms generalizing ms' with
  | nil =>
    cases h
    exact .nil
  | cons d rest ih =>
    cases h with
    | @cons _ name name' code code' _ _ hname hcode hs =>
      subst hkeys
      simp only [List.map_cons, methodOf, hname.lexeme]
      exact .cons ⟨rfl, rfl, rfl, rfl, innerKeys, henv, hcode⟩ (ih hs)

section Innermost

variable {m m' : Machine} {f : FrameId} {outer : Env} {r : Renaming} {name name' : Token}
  {parent parent' : Option Class}

theorem bindClass_like (outer : Env) (hm : MachineLike L κs m m') (hf : κs[f]? = some r)
    (hname : L.Token name name') (hstays : r.new name.lexeme = name.lexeme)
    (hbinds : (m.store.frame f).binds name.lexeme = true)
    (hparent : Option.Rel (ClassLike L κs) parent parent') {own own' : Bindings Closure}
    (hown : BindingsLike (MethodLike L κs) .same own own') :
    RunsLikeAt L κs Any (bindClass name parent own (f :: outer))
      (bindClass name' parent' own' (f :: outer)) m m' := by
  have hbinds' := ((hm.frames f r hf).binds name.lexeme).trans hbinds
  rw [hstays, ← hname.lexeme] at hbinds'
  have hrun : ∀ {m : Machine} {name : Token} (parent : Option Class) (own : Bindings Closure),
      (m.store.frame f).binds name.lexeme = true →
        (bindClass name parent own (f :: outer)).run m = (.ok (), { m with
          store := (m.store.newIdentity.2.defineIn f name.lexeme
            (.ofClass (.mk m.store.nextIdentity name.lexeme parent own))) }) :=
    fun _ _ h => (run_bind_ok rfl).trans (assignNearest_innermost h)
  have hclass : ∀ id, ClassLike L κs (.mk id name.lexeme parent own)
      (.mk id name.lexeme parent' own') := by
    intro id
    cases hparent with
    | none => exact .base hown
    | some hc => exact .derived hc hown
  have hlast := hm.newIdentity.defineIn hf name.lexeme
    (ValueLike.ofClass (hclass m.store.nextIdentity))
  rw [hstays] at hlast
  have hrun' := hrun parent' own' hbinds'
  rw [hm.nextIdentity, hname.lexeme] at hrun'
  exact .of_run (hrun parent own hbinds) hrun' hlast (.ok trivial)

theorem finishClass_like {keys : List Renaming} (hm : MachineLike L κs m m')
    (henv : EnvKeys κs (f :: outer) keys) (hname : L.Token name name')
    (hstays : (innermost keys).new name.lexeme = name.lexeme)
    (hbinds : (m.store.frame f).binds name.lexeme = true)
    (hparent : Option.Rel (ClassLike L κs) parent parent') {superclass : Option Reference}
    (hsome : parent.isSome = superclass.isSome) {ms ms' : List FunDecl}
    (hms : MethodsLike L (.same :: classKeys superclass keys) ms ms') :
    RunsLikeAt L κs Any (finishClass name ms (f :: outer) parent)
      (finishClass name' ms' (f :: outer) parent') m m' := by
  cases henv with
  | @cons _ r _ rest hf hrest =>
    cases hparent with
    | none =>
      cases superclass with
      | some _ => cases hsome
      | none => exact bindClass_like outer hm hf hname hstays hbinds .none (methods_like (.cons hf hrest) hms)
    | @some c c' hc =>
      cases superclass with
      | none => cases hsome
      | some _ =>
        have hsuper : BindingsLike (ValueLike L κs) .same [(superName, .ofClass c)]
            [(superName, .ofClass c')] := .single (.ofClass hc)
        have hκ : κs <+: κs ++ [.same] := List.prefix_append _ _
        have hinner : EnvKeys (κs ++ [.same]) (m.store.frames.size :: f :: outer)
            (.same :: r :: rest) :=
          .cons (hm.count ▸ List.getElem?_concat_length) (EnvKeys.mono (.cons hf hrest) hκ)
        have hlt : f ≠ m.store.frames.size := by
          rw [hm.count]
          exact Nat.ne_of_lt (List.getElem?_eq_some_iff.mp hf).1
        have hsize : m'.store.frames.size = m.store.frames.size := hm.count'.trans hm.count.symm
        have hrun : ∀ (m : Machine) (name : Token) (ms : List FunDecl) (c : Class),
            (finishClass name ms (f :: outer) (some c)).run m
              = (bindClass name (some c)
                (.ofPairs (ms.map (methodOf (m.store.frames.size :: f :: outer)))) (f :: outer)).run
                { m with store := { m.store with
                    frames := m.store.frames.push [(superName, .ofClass c)] } } :=
          fun _ _ _ _ => rfl
        have hbinds₁ : (({ m.store with frames := m.store.frames.push [(superName, .ofClass c)] } :
            Store).frame f).binds name.lexeme = true := by
          rw [Store.frame_push, if_neg hlt]
          exact hbinds
        have hbound := bindClass_like outer (hm.push .same hsuper)
          (prefix_getElem? hκ hf) hname hstays hbinds₁ (.some (hc.mono (.refl L) hκ))
          (methods_like hinner hms)
        have hrun' := hrun m' name' ms' c'
        rw [hsize] at hrun'
        exact (hbound.later hκ).congr (hrun m name ms c) hrun'

end Innermost

/-- Where there is no frame, there is no name to bind anew. -/
theorem finishClass_unbound {name name' : Token} (hname : L.Token name name')
    {parent parent' : Option Class} (hparent : Option.Rel (ClassLike L κs) parent parent')
    {ms ms' : List FunDecl} :
    RunsLike L κs Any (finishClass name ms [] parent) (finishClass name' ms' [] parent') := by
  have hbind : ∀ (κs : List Renaming) (p p' : Option Class) (own own' : Bindings Closure),
      RunsLike L κs Any (bindClass name p own []) (bindClass name' p' own' []) := by
    intro κs p p' own own' m m' hm
    have hrun : ∀ {name : Token} {p : Option Class} {own : Bindings Closure} {m : Machine},
        (bindClass name p own []).run m = (.error (.error (.undefinedVariable name.lexeme name.pos)),
          { m with store := m.store.newIdentity.2 }) := rfl
    exact .of_run hrun hrun hm.newIdentity
      (.error (.error (.undefinedVariable (L.undefined_token hname))))
  cases hparent with
  | none =>
    exact hbind κs none none (.ofPairs (ms.map (methodOf []))) (.ofPairs (ms'.map (methodOf [])))
  | some hc =>
    exact (newFrame_like .nil .same (.single (.ofClass hc))).bind fun _ _ _ _ _ => hbind _ _ _ _ _

/-- The superclass of a class, and that there is one if it has one. -/
theorem superclassOf_like (henv : EnvKeys κs env keys) {superclass superclass' : Option Reference}
    (h : SuperclassLike L keys superclass superclass') :
    RunsLike L κs (fun κs parent parent' => parent.isSome = superclass.isSome ∧
        Option.Rel (ClassLike L κs) parent parent')
      (superclassOf superclass env) (superclassOf superclass' env) := by
  cases h with
  | none => exact .pure ⟨rfl, .none⟩
  | some href =>
    refine (lookUp_like henv href).bind fun κs₁ v v' _ hv => ?_
    cases hv with
    | ofClass hc => exact .pure ⟨rfl, .some hc⟩
    | _ => exact .raise (.type (L.ref_pos href))

theorem superclassOf_snd (superclass : Option Reference) (env : Env) (m : Machine) :
    ((superclassOf superclass env).run m).2 = m := by
  cases superclass with
  | none => rfl
  | some ref =>
    have hsnd := lookUp_snd ref env m
    cases hrun : (lookUp ref env).run m with
    | mk r m₁ =>
      rw [hrun] at hsnd
      subst hsnd
      cases r with
      | error e => exact congrArg Prod.snd (run_bind_error hrun)
      | ok v =>
        refine (congrArg Prod.snd (run_bind_ok hrun)).trans ?_
        cases v <;> rfl

theorem declareClass_like (henv : EnvKeys κs env keys) {name name' : Token}
    (hname : L.Token name name') (hstays : (innermost keys).new name.lexeme = name.lexeme)
    {superclass superclass' : Option Reference}
    (hsuperclass : SuperclassLike L keys superclass superclass') {ms ms' : List FunDecl}
    (hms : MethodsLike L (.same :: classKeys superclass keys) ms ms') :
    RunsLike L κs Any (declareClass name superclass ms env)
      (declareClass name' superclass' ms' env) := by
  have hrun : ∀ (name : Token) (superclass : Option Reference) (ms : List FunDecl) (m : Machine),
      (declareClass name superclass ms env).run m
        = (superclassOf superclass env >>= finishClass name ms env).run
          { m with store := m.store.define env name.lexeme .nil } := fun _ _ _ _ => rfl
  intro m m' hm
  have hrun' := hrun name' superclass' ms' m'
  rw [hname.lexeme] at hrun'
  refine RunsLikeAt.congr ?_ (hrun name superclass ms m) hrun'
  cases henv with
  | nil =>
    -- there is no frame to bind the name in
    have hsuper : RunsLike L κs _ (superclassOf superclass []) (superclassOf superclass' []) :=
      superclassOf_like .nil hsuperclass
    refine (hsuper.bind fun κs₁ parent parent' _ hparent => ?_) m m' hm
    exact finishClass_unbound hname hparent.2
  | @cons f r outer rest hf hrest =>
    have hm₁ := hm.defineIn hf name.lexeme (.nil (L := L))
    have hlt : f < m.store.frames.size := hm.count ▸ (List.getElem?_eq_some_iff.mp hf).1
    rw [show r.new name.lexeme = name.lexeme from hstays] at hm₁
    refine (superclassOf_like (.cons hf hrest) hsuperclass _ _ hm₁).bind
      fun κs₁ parent parent' hκ hm₂ hparent => ?_
    refine finishClass_like hm₂ (EnvKeys.mono (.cons hf hrest) hκ) hname hstays ?_ hparent.2
      hparent.1 hms
    rw [superclassOf_snd]
    exact binds_defineIn hlt _ _

end Classes

/-! ## 3. Native functions -/

theorem orFailed_like {α : Type} {paren paren' : Token} (hparen : L.Token paren paren')
    (r : Except ConsoleError α) :
    RunsLike L κs (fun _ a a' => a' = a) (Native.orFailed paren r) (Native.orFailed paren' r) := by
  cases r with
  | ok a => exact .pure rfl
  | error e => exact .raise (.native hparen.pos)

theorem write_like (text : String) :
    RunsLike L κs (fun _ a a' => a' = a) (write text) (write text) := by
  intro m m' hm
  have hsink : (m'.sink.write (Text.Utf8.encode text)) = m.sink.write (Text.Utf8.encode text) := by
    rw [hm.sink]
  exact .of_run rfl rfl { hm with sink := congrArg Prod.snd hsink } (.ok (congrArg Prod.fst hsink))

theorem readLine_like : RunsLike L κs (fun _ a a' => a' = a) readLine readLine := by
  intro m m' hm
  have hline : m'.nextLine.1 = m.nextLine.1 ∧ MachineLike L κs m.nextLine.2 m'.nextLine.2 := by
    unfold Machine.nextLine
    rw [hm.sink]
    split
    · exact ⟨rfl, { hm with sink := rfl }⟩
    · rw [hm.input]
      dsimp only
      split
      · exact ⟨rfl, { hm with sink := rfl, input := rfl }⟩
      · exact ⟨rfl, { hm with sink := rfl, input := rfl }⟩
      · split <;> exact ⟨rfl, { hm with sink := rfl, input := rfl }⟩
  exact .of_run rfl rfl hline.2 (.ok hline.1)

theorem readClock_like : RunsLike L κs (fun _ a a' => a' = a) readClock readClock := by
  intro m m' hm
  have hread : m'.clock.read m'.now = m.clock.read m.now := by rw [hm.clock, hm.now]
  exact .of_run rfl rfl { hm with clock := congrArg Prod.snd hread } (.ok (congrArg Prod.fst hread))

theorem argument_like (f : Native) {args args' : List Value}
    (h : List.Forall₂ (ValueLike L κs) args args') :
    RunsLike L κs (ValueLike L) (Native.argument f args) (Native.argument f args') := by
  cases h with
  | nil => exact .fault
  | cons hv _ => exact .pure hv

theorem numberOf_like {v v' : Value} (h : ValueLike L κs v v') :
    ValueLike L κs (Native.numberOf v) (Native.numberOf v') := by
  have hdisplay := h.display
  cases h with
  | number => exact .number
  | _ =>
    simp only [Native.numberOf, hdisplay]
    split
    · exact .number
    · exact .nil

theorem native_like (f : Native) {args args' : List Value}
    (h : List.Forall₂ (ValueLike L κs) args args') {paren paren' : Token}
    (hparen : L.Token paren paren') :
    RunsLike L κs (ValueLike L) (f.call args paren) (f.call args' paren') := by
  cases f with
  | clock =>
    refine readClock_like.bind fun κs₁ shown shown' _ hshown => ?_
    subst hshown
    cases shown' with
    | some => exact .pure .number
    | none => exact .raise (.native hparen.pos)
  | print =>
    refine (argument_like .print h).bind fun κs₁ v v' _ hv => ?_
    rw [hv.display]
    refine (write_like _).bind fun κs₂ r r' _ hr => ?_
    subst hr
    exact (orFailed_like hparen r').bind fun _ _ _ _ _ => .pure .nil
  | read =>
    refine readLine_like.bind fun κs₁ r r' _ hr => ?_
    subst hr
    refine (orFailed_like hparen r').bind fun κs₂ line line' _ hline => ?_
    subst hline
    cases line' with
    | some text => exact .pure .text
    | none => exact .pure .nil
  | tonumber => exact (argument_like .tonumber h).bind fun _ _ _ _ hv => .pure (numberOf_like hv)
  | tostring =>
    refine (argument_like .tostring h).bind fun κs₁ v v' _ hv => ?_
    rw [hv.display]
    exact .pure .text
  | type =>
    refine (argument_like .type h).bind fun κs₁ v v' _ hv => ?_
    rw [hv.typeName]
    exact .pure .text
  | sleep =>
    refine (argument_like .sleep h).bind fun κs₁ v v' _ hv => ?_
    have htype := hv.typeName
    cases hv with
    | @number x =>
      cases hx : Native.nanoseconds? x with
      | some n =>
        simp only [hx]
        intro m m' hm
        exact .of_run rfl rfl { hm with now := congrArg (· + n) hm.now } (.ok .nil)
      | none =>
        simp only [hx]
        exact .raise (.native hparen.pos)
    | function | ofClass | object => exact .raise (.native hparen.pos)
    | _ => exact .raise (.native hparen.pos)

/-! ## 4. Operators -/

section Operators

variable {op op' : Token} {a a' b b' : Value}

theorem onNumbers_like (hop : L.Token op op') {f f' : Float → Float → Computed}
    (hf : ∀ x y, OutcomeLike L (ValueLike L κs) (f x y) (f' x y)) (ha : ValueLike L κs a a')
    (hb : ValueLike L κs b b') :
    OutcomeLike L (ValueLike L κs) (onNumbers op f a b) (onNumbers op' f' a' b') := by
  cases ha with
  | number =>
    cases hb with
    | number => exact hf _ _
    | _ => exact .error (.error (.type hop.pos))
  | _ => exact .error (.error (.type hop.pos))

theorem plus_like (hop : L.Token op op') (ha : ValueLike L κs a a') (hb : ValueLike L κs b b') :
    OutcomeLike L (ValueLike L κs) (plus op a b) (plus op' a' b') := by
  have hdisplay := hb.display
  cases ha with
  | number =>
    cases hb with
    | number => exact .ok .number
    | _ => exact .error (.error (.type hop.pos))
  | text =>
    simp only [plus, hdisplay]
    exact .ok .text
  | _ => exact .error (.error (.type hop.pos))

theorem quotient_like (hop : L.Token op op') (x y : Float) :
    OutcomeLike L (ValueLike L κs) (quotient op x y) (quotient op' x y) := by
  unfold quotient
  split
  · exact .error (.error (.divisionByZero hop.pos))
  · exact .ok .number

theorem binaryValue_like (hop : L.Token op op') (ha : ValueLike L κs a a')
    (hb : ValueLike L κs b b') :
    OutcomeLike L (ValueLike L κs) (binaryValue op a b) (binaryValue op' a' b') := by
  unfold binaryValue
  rw [hop.kind, ha.same_eq hb]
  split
  · exact .ok hb
  · exact plus_like hop ha hb
  · exact onNumbers_like hop (fun _ _ => .ok .number) ha hb
  · exact onNumbers_like hop (fun _ _ => .ok .number) ha hb
  · exact onNumbers_like hop (quotient_like hop) ha hb
  · exact onNumbers_like hop (fun _ _ => .ok .bool) ha hb
  · exact onNumbers_like hop (fun _ _ => .ok .bool) ha hb
  · exact onNumbers_like hop (fun _ _ => .ok .bool) ha hb
  · exact onNumbers_like hop (fun _ _ => .ok .bool) ha hb
  · exact .ok .bool
  · exact .ok .bool
  · exact .error .fault

theorem unaryValue_like (hop : L.Token op op') (ha : ValueLike L κs a a') :
    OutcomeLike L (ValueLike L κs) (unaryValue op a) (unaryValue op' a') := by
  have hother : ∀ {op : Token} {v : Value}, op.kind ≠ .minus → op.kind ≠ .bang →
      unaryValue op v = .error (.fault (.unknownOperator op)) := by
    intro op v hminus hbang
    unfold unaryValue
    split <;> first | rfl | contradiction
  by_cases hminus : op.kind = .minus
  · unfold unaryValue
    rw [hop.kind, hminus]
    cases ha with
    | number => exact .ok .number
    | _ => exact .error (.error (.type hop.pos))
  · by_cases hbang : op.kind = .bang
    · have htruthy := ha.isTruthy
      unfold unaryValue
      rw [hop.kind, hbang]
      dsimp only
      rw [htruthy]
      exact .ok .bool
    · rw [hother hminus hbang, hother (hop.kind ▸ hminus) (hop.kind ▸ hbang)]
      exact .error .fault

theorem decides_like (hop : L.Token op op') (ha : ValueLike L κs a a') :
    decides op' a' = decides op a := by
  unfold decides
  rw [hop.kind, ha.isTruthy]

/-- What an operator computes, as a computation. -/
theorem computed_like {c c' : Computed} (h : OutcomeLike L (ValueLike L κs) c c') :
    RunsLike L κs (ValueLike L) (liftM c) (liftM c') := by
  cases h with
  | ok hv => exact .pure hv
  | error he => exact fun _ _ hm => .of_run rfl rfl hm (.error he)

end Operators

end Lox
