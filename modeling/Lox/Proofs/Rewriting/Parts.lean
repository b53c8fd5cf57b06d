import Lox.Proofs.Machine.Parts
import Lox.Proofs.Rewriting.Runs

/-!
# Parts of the interpreter for programs written another way

Variables, functions, classes, native functions and operators: each of them, on what is related, makes what
is related. Programs run in none of them, so none needs fuel.
-/

namespace Lox

variable {R : Rewriting} {leader : Leader} {φ ψ : List FrameId} {slots : List Slot}
  {env env' inner inner' : Env}

/-! ## 1. Variables -/

section Variables

theorem readIn_into {m m' : Machine} {f f' : FrameId} {t t' : Token} (hm : MachineInto R φ m m')
    (hf : φ[f]? = some f') (ht : R.Token t t') :
    OutcomeInto R (ValueInto R φ) (readIn m.store f t) (readIn m'.store f' t') := by
  have hfind := (hm.frames f f' hf).find? t.lexeme
  unfold readIn
  rw [ht.lexeme]
  generalize (m.store.frame f).find? t.lexeme = v, (m'.store.frame f').find? t.lexeme = v' at hfind ⊢
  cases hfind with
  | some hv => exact .ok hv
  | none => exact .error (.undefinedVariable ht.pos)

/-- A distance leads out of the environment of the short program, or to one variable. -/
theorem readAt_into (henv : EnvInto φ slots env env') (d : Nat) {t t' : Token} (ht : R.Token t t') :
    PartInto R φ (ValueInto R) (readAt env d t) (readAt env' (distanceIn slots d) t') := by
  cases hf : env[d]? with
  | some f =>
    obtain ⟨f', hf', hφ⟩ := henv.at_some hf
    exact fun m m' hm =>
      .of_run (readAt_run hf) (readAt_run hf') (List.prefix_refl φ) hm (readIn_into hm hφ ht)
  | none =>
    have hover : ∀ m, (readAt env d t).run m
        = (.error (.fault (.overshoot d (env.length - 1))), m) := by
      intro m
      show (accessed t (m.store.getAt env d t.lexeme) : Run Value).run m = _
      simp only [Store.getAt, Store.frameAt, hf]
      rfl
    exact fun m m' _ => .of_fault (hover m)

/-- **A reference means one variable in both programs.** -/
theorem lookUp_into {ref ref' : Reference} (henv : EnvInto φ slots env env')
    (href : RefInto R slots ref ref') :
    PartInto R φ (ValueInto R) (lookUp ref env) (lookUp ref' env') := by
  intro m m' hm
  have hd' := hm.refs href.id
  cases hd : m.distances.find? ref.id with
  | some d =>
    rw [hd] at hd'
    exact (readAt_into henv d href.token m m' hm).congr (lookUp_at hd) (lookUp_at hd')
  | none =>
    rw [hd] at hd'
    exact .of_run (lookUp_global hd) (lookUp_global hd') (List.prefix_refl φ) hm
      (readIn_into hm hm.global href.token)

/-- Binding one variable anew in two frames. -/
theorem rebound_into {m m' : Machine} {f f' : FrameId} {t t' : Token} (hm : MachineInto R φ m m')
    (hf : φ[f]? = some f') (ht : R.Token t t') {v v' : Value} (hv : ValueInto R φ v v')
    {x x' : Run Unit}
    (hx : x.run m = if (m.store.frame f).binds t.lexeme then
        (.ok (), { m with store := m.store.defineIn f t.lexeme v })
      else (.error (.error (.undefinedVariable t.lexeme t.pos)), m))
    (hx' : x'.run m' = if (m'.store.frame f').binds t'.lexeme then
        (.ok (), { m' with store := m'.store.defineIn f' t'.lexeme v' })
      else (.error (.error (.undefinedVariable t'.lexeme t'.pos)), m')) :
    EndsInto R φ Whatever x x' m m' := by
  rw [ht.lexeme, (hm.frames f f' hf).binds] at hx'
  by_cases hb : (m.store.frame f).binds t.lexeme
  · rw [if_pos hb] at hx hx'
    exact .of_run hx hx' (List.prefix_refl φ) (hm.defineIn hf t.lexeme hv) (.ok trivial)
  · rw [if_neg hb] at hx hx'
    exact .of_run hx hx' (List.prefix_refl φ) hm (.error (.undefinedVariable ht.pos))

theorem rebind_into {ref ref' : Reference} (henv : EnvInto φ slots env env')
    (href : RefInto R slots ref ref') {v v' : Value} (hv : ValueInto R φ v v') :
    PartInto R φ Whatever (rebind ref env v) (rebind ref' env' v') := by
  intro m m' hm
  have hd' := hm.refs href.id
  cases hd : m.distances.find? ref.id with
  | some d =>
    rw [hd] at hd'
    cases hf : env[d]? with
    | some f =>
      obtain ⟨f', hf', hφ⟩ := henv.at_some hf
      exact rebound_into hm hφ href.token hv (rebind_run (ownerOf_at hd hf))
        (rebind_run (ownerOf_at hd' hf'))
    | none => exact .of_fault (run_bind_error (ownerOf_over hd hf))
  | none =>
    rw [hd] at hd'
    exact rebound_into hm hm.global href.token hv (rebind_run (ownerOf_global hd))
      (rebind_run (ownerOf_global hd'))

/-- A declaration in the innermost frame. -/
theorem define_into (henv : EnvInto φ slots env env') (hin : Innermost slots) {t t' : Token}
    (ht : R.Token t t') {v v' : Value} (hv : ValueInto R φ v v') :
    PartInto R φ Whatever (modifyStore (·.define env t.lexeme v))
      (modifyStore (·.define env' t'.lexeme v')) := by
  refine .modifyStore fun m m' hm => ?_
  rw [ht.lexeme]
  obtain ⟨rfl, rfl⟩ | ⟨f, outer, f', outer', rfl, rfl, hf⟩ := henv.innermost hin
  · exact hm
  · exact hm.defineIn hf t.lexeme hv

end Variables

/-! ## 2. Frames -/

/-- A frame in front of both environments. -/
structure InFront (env env' : Env) (φ : List FrameId) (inner inner' : Env) : Prop where
  frames : ∃ f f', inner = f :: env ∧ inner' = f' :: env' ∧ φ[f]? = some f'

theorem InFront.shared (h : InFront env env' ψ inner inner') (henv : EnvInto φ slots env env')
    (hφ : φ <+: ψ) : EnvInto ψ (.shared :: slots) inner inner' := by
  obtain ⟨f, f', rfl, rfl, hf⟩ := h.frames
  exact .shared hf (henv.later hφ)

/-- An environment that does not know of the frame. -/
theorem InFront.added {outer : Env} (h : InFront env env' ψ inner inner')
    (houter : EnvInto φ slots outer env') (hφ : φ <+: ψ) :
    EnvInto ψ (.added :: slots) outer inner' := by
  obtain ⟨f, f', -, rfl, -⟩ := h.frames
  exact .added (houter.later hφ)

theorem newFrame_inFront (env env' : Env) {b b' : Bindings Value}
    (hb : BindingsInto (ValueInto R φ) b b') :
    PartInto R φ (InFront env env') (newFrame env b) (newFrame env' b') := by
  intro m m' hm
  refine .of_run rfl rfl (List.prefix_append _ _) (hm.push hb) (.ok ⟨_, _, rfl, rfl, ?_⟩)
  rw [hm.count]
  exact List.getElem?_concat_length

theorem newFrame_into (henv : EnvInto φ slots env env') {b b' : Bindings Value}
    (hb : BindingsInto (ValueInto R φ) b b') :
    PartInto R φ (fun ψ => EnvInto ψ (.shared :: slots)) (newFrame env b) (newFrame env' b') :=
  (newFrame_inFront env env' hb).imp fun _ _ _ hφ h => h.shared henv hφ

/-- **A frame of the written-out program alone.** -/
theorem RunsInto.addedFrame {α : Type} {V : List FrameId → α → α → Prop} {x : Run α}
    {f' : Env → Run α} {b : Bindings Value} (henv : EnvInto φ slots env env')
    (h : ∀ inner, EnvInto φ (.added :: slots) env inner → RunsInto R leader φ V x (f' inner)) :
    RunsInto R leader φ V x (newFrame env' b >>= f') :=
  fun m _ hm => (h _ (.added henv) m _ (hm.pushAdded b)).congr rfl rfl

/-! ## 3. Functions and methods -/

section Functions

theorem newFunction_into {f f' : Closure} (hf : FunctionInto R φ f f') :
    PartInto R φ (ValueInto R) (newFunction f) (newFunction f') := by
  intro m m' hm
  have hrun := newFunction_run (m := m') f'
  rw [hm.nextIdentity] at hrun
  exact .of_run (newFunction_run f) hrun (List.prefix_refl φ) hm.newIdentity (.ok (.function hf))

/-- A bound method has the frame of `this` that its program expects. -/
theorem bindMethod_into {f f' : Closure} (hf : MethodInto R φ f f') {v v' : Value}
    (hv : ValueInto R φ v v') :
    PartInto R φ (FunctionInto R) (bindMethod f v) (bindMethod f' v') := by
  obtain ⟨slots, henv, hcode, hin⟩ := hf.code
  refine (newFrame_into henv (.single thisName hv)).bind fun ψ inner inner' _ hinner => .pure ?_
  exact ⟨hf.name, hf.isInitializer, _, hinner, hcode, hin⟩

theorem boundMethod_into {f f' : Closure} (hf : MethodInto R φ f f') {v v' : Value}
    (hv : ValueInto R φ v v') :
    PartInto R φ (ValueInto R) (boundMethod f v) (boundMethod f' v') :=
  (bindMethod_into hf hv).bind fun _ _ _ _ hg => newFunction_into hg

/-- A method that two classes may have, bound to an instance. -/
theorem methodOr_into {c c' d d' : Class} (hc : ClassInto R φ c c') (hd : ClassInto R φ d d')
    {o : ObjectId} {name name' : Token} (hname : R.Token name name') :
    PartInto R φ (ValueInto R) (methodOr c name o d) (methodOr c' name' o d') := by
  unfold methodOr
  rw [hname.lexeme]
  have hfind := hc.method? name.lexeme
  generalize c.method? name.lexeme = f, c'.method? name.lexeme = f' at hfind ⊢
  cases hfind with
  | none => exact .raise (.undefinedProperty hname.pos)
  | some hf => exact boundMethod_into hf (.object hd)

theorem property_into {c c' : Class} (hc : ClassInto R φ c c') {o : ObjectId} {name name' : Token}
    (hname : R.Token name name') :
    PartInto R φ (ValueInto R) (property o c name) (property o c' name') := by
  intro m m' hm
  have hfield := (hm.fields o).find? name.lexeme
  have hmethod := methodOr_into (o := o) hc hc hname
  refine EndsInto.congr ?_ (run_property o c name m) (run_property o c' name' m')
  rw [hname.lexeme]
  generalize (m.store.fields o).find? name.lexeme = v, (m'.store.fields o).find? name.lexeme = v'
    at hfield ⊢
  cases hfield with
  | some hv => exact PartInto.pure hv m m' hm
  | none => exact hmethod m m' hm

/-- The instance at hand has one name everywhere. -/
theorem hiddenThis_into : R.Token hiddenThis hiddenThis := ⟨rfl, rfl, R.pos_refl _⟩

/-- The method of a superclass, once the class is known. -/
theorem superMethodOf_into (henv : EnvInto φ slots env env') {c c' : Class}
    (hc : ClassInto R φ c c') {method method' : Token} (hmethod : R.Token method method')
    (nearer : Nat) :
    PartInto R φ (ValueInto R) (superMethodOf c method env nearer)
      (superMethodOf c' method' env' (distanceIn slots nearer)) := by
  refine (readAt_into henv nearer hiddenThis_into).bind fun ψ v v' hφ hv => ?_
  cases hv with
  | object hd => exact methodOr_into (hc.later hφ) hd hmethod
  | _ => exact .fault

theorem superMethod_into (henv : EnvInto φ slots env env') {ref ref' : Reference}
    (href : SuperInto R slots ref ref') {method method' : Token} (hmethod : R.Token method method') :
    PartInto R φ (ValueInto R) (superMethod ref method env) (superMethod ref' method' env') := by
  intro m m' hm
  obtain ⟨hd', hnext⟩ := hm.supers href.id
  refine EndsInto.congr ?_ (run_superMethod ref method env m) (run_superMethod ref' method' env' m')
  rw [hd']
  cases hd : m.distances.find? ref.id with
  | none => exact .of_fault rfl
  | some d =>
    have hread := readAt_into henv d href.token
    cases d with
    | zero =>
      refine PartInto.bind hread (fun ψ v v' _ hv => ?_) m m' hm
      cases hv <;> exact .fault
    | succ nearer =>
      have hnearer := hnext nearer hd
      rw [hnearer] at hread
      simp only [Option.map_some, hnearer]
      refine PartInto.bind hread (fun ψ v v' hφ hv => ?_) m m' hm
      cases hv with
      | ofClass hc => exact superMethodOf_into (henv.later hφ) hc hmethod nearer
      | _ => exact .fault

end Functions

/-! ## 4. Classes -/

section Classes

theorem methods_into {inner inner' : Env} (henv : EnvInto φ slots inner inner')
    {ms ms' : List FunDecl} (h : MethodsInto R (.shared :: slots) ms ms') :
    BindingsInto (MethodInto R φ) (Bindings.ofPairs (ms.map (methodOf inner)))
      (Bindings.ofPairs (ms'.map (methodOf inner'))) := by
  refine .ofPairs ?_
  generalize hslots : Slot.shared :: slots = around at h
  induction ms generalizing ms' with
  | nil =>
    cases h
    exact .nil
  | cons d rest ih =>
    cases h with
    | @cons _ name name' code code' _ _ hname hcode hs =>
      subst hslots
      simp only [List.map_cons, methodOf, hname.lexeme]
      exact .cons ⟨rfl, rfl, rfl, slots, henv, hcode, fun _ => innermost_shared slots⟩ (ih hs)

section Bound

variable {m m' : Machine} {f f' : FrameId} {name name' : Token} {parent parent' : Option Class}

theorem bindClass_into (outer outer' : Env) (hm : MachineInto R φ m m') (hf : φ[f]? = some f')
    (hname : R.Token name name') (hbinds : (m.store.frame f).binds name.lexeme = true)
    (hparent : Option.Rel (ClassInto R φ) parent parent') {own own' : Bindings Closure}
    (hown : BindingsInto (MethodInto R φ) own own') :
    EndsInto R φ Whatever (bindClass name parent own (f :: outer))
      (bindClass name' parent' own' (f' :: outer')) m m' := by
  have hbinds' := ((hm.frames f f' hf).binds name.lexeme).trans hbinds
  rw [← hname.lexeme] at hbinds'
  have hrun : ∀ {m : Machine} {f : FrameId} {name : Token} (outer : Env) (parent : Option Class)
      (own : Bindings Closure), (m.store.frame f).binds name.lexeme = true →
        (bindClass name parent own (f :: outer)).run m = (.ok (), { m with
          store := (m.store.newIdentity.2.defineIn f name.lexeme
            (.ofClass (.mk m.store.nextIdentity name.lexeme parent own))) }) :=
    fun _ _ _ h => (run_bind_ok rfl).trans (assignNearest_innermost h)
  have hclass : ClassInto R φ (.mk m.store.nextIdentity name.lexeme parent own)
      (.mk m.store.nextIdentity name.lexeme parent' own') := .over hparent hown
  have hlast := hm.newIdentity.defineIn hf name.lexeme (.ofClass hclass)
  have hrun' := hrun outer' parent' own' hbinds'
  rw [hm.nextIdentity, hname.lexeme] at hrun'
  exact .of_run (hrun outer parent own hbinds) hrun' (List.prefix_refl φ) hlast (.ok trivial)

theorem finishClass_into {outer outer' : Env} (hm : MachineInto R φ m m')
    (henv : EnvInto φ slots (f :: outer) (f' :: outer')) (hf : φ[f]? = some f')
    (hname : R.Token name name') (hbinds : (m.store.frame f).binds name.lexeme = true)
    (hparent : Option.Rel (ClassInto R φ) parent parent') {superclass : Option Reference}
    (hsome : parent.isSome = superclass.isSome) {ms ms' : List FunDecl}
    (hms : MethodsInto R (.shared :: classSlots superclass slots) ms ms') :
    EndsInto R φ Whatever (finishClass name ms (f :: outer) parent)
      (finishClass name' ms' (f' :: outer') parent') m m' := by
  cases hparent with
  | none =>
    cases superclass with
    | some _ => cases hsome
    | none => exact bindClass_into outer outer' hm hf hname hbinds .none (methods_into henv hms)
  | @some c c' hc =>
    cases superclass with
    | none => cases hsome
    | some _ =>
      have hframe := newFrame_into (R := R) henv (.single superName (.ofClass hc))
      refine (hframe m m' hm).bind fun ψ inner inner' hφ hm₁ hinner => ?_
      have hlt : f ≠ m.store.frames.size := by
        rw [hm.count]
        exact Nat.ne_of_lt (List.getElem?_eq_some_iff.mp hf).1
      have hbinds₁ : (({ m.store with frames := m.store.frames.push [(superName, .ofClass c)] } :
          Store).frame f).binds name.lexeme = true := by
        rw [Store.frame_push, if_neg hlt]
        exact hbinds
      exact bindClass_into outer outer' hm₁ (frame_later hφ hf) hname hbinds₁ (.some (hc.later hφ))
        (methods_into hinner hms)

end Bound

/-- The superclass of a class, and that there is one if it has one. -/
theorem superclassOf_into (henv : EnvInto φ slots env env')
    {superclass superclass' : Option Reference} (h : SuperclassInto R slots superclass superclass') :
    PartInto R φ (fun ψ parent parent' => parent.isSome = superclass.isSome ∧
        Option.Rel (ClassInto R ψ) parent parent')
      (superclassOf superclass env) (superclassOf superclass' env') := by
  cases h with
  | none => exact .pure ⟨rfl, .none⟩
  | some href =>
    refine (lookUp_into henv href).bind fun ψ v v' _ hv => ?_
    cases hv with
    | ofClass hc => exact .pure ⟨rfl, .some hc⟩
    | _ => exact .raise (.type href.token.pos)

/-- Where there is no frame, there is no name to bind anew. -/
theorem finishClass_nowhere {name name' : Token} (hname : R.Token name name')
    {parent parent' : Option Class} (hparent : Option.Rel (ClassInto R φ) parent parent')
    {ms ms' : List FunDecl} :
    PartInto R φ Whatever (finishClass name ms [] parent) (finishClass name' ms' [] parent') := by
  have hbind : ∀ (φ : List FrameId) (p p' : Option Class) (own own' : Bindings Closure),
      PartInto R φ Whatever (bindClass name p own []) (bindClass name' p' own' []) := by
    intro φ p p' own own' m m' hm
    have hrun : ∀ (name : Token) (p : Option Class) (own : Bindings Closure) (m : Machine),
        (bindClass name p own []).run m = (.error (.error (.undefinedVariable name.lexeme name.pos)),
          { m with store := m.store.newIdentity.2 }) := fun _ _ _ _ => rfl
    have hrun' := hrun name' p' own' m'
    rw [hname.lexeme] at hrun'
    exact .of_run (hrun name p own m) hrun' (List.prefix_refl φ) hm.newIdentity
      (.error (.undefinedVariable hname.pos))
  cases hparent with
  | none =>
    exact hbind φ none none (.ofPairs (ms.map (methodOf []))) (.ofPairs (ms'.map (methodOf [])))
  | some hc =>
    have hframe := newFrame_into (R := R) (φ := φ) (.base .nil) (.single superName (.ofClass hc))
    exact hframe.bind fun ψ _ _ _ _ => hbind ψ _ _ _ _

theorem declareClass_into (henv : EnvInto φ slots env env') (hin : Innermost slots)
    {name name' : Token} (hname : R.Token name name') {superclass superclass' : Option Reference}
    (hsuperclass : SuperclassInto R slots superclass superclass') {ms ms' : List FunDecl}
    (hms : MethodsInto R (.shared :: classSlots superclass slots) ms ms') :
    PartInto R φ Whatever (declareClass name superclass ms env)
      (declareClass name' superclass' ms' env') := by
  have hrun : ∀ (name : Token) (superclass : Option Reference) (ms : List FunDecl) (env : Env)
      (m : Machine), (declareClass name superclass ms env).run m
        = (superclassOf superclass env >>= finishClass name ms env).run
          { m with store := m.store.define env name.lexeme .nil } := fun _ _ _ _ _ => rfl
  intro m m' hm
  refine EndsInto.congr ?_ (hrun name superclass ms env m) (hrun name' superclass' ms' env' m')
  obtain ⟨rfl, rfl⟩ | ⟨f, outer, f', outer', rfl, rfl, hf⟩ := henv.innermost hin
  · -- there is no frame to bind the name in
    refine ((superclassOf_into henv hsuperclass).bind fun ψ parent parent' _ hparent => ?_) m m' hm
    exact finishClass_nowhere hname hparent.2
  · have hm₁ := hm.defineIn hf name.lexeme (.nil (R := R))
    have hlt : f < m.store.frames.size := hm.count ▸ (List.getElem?_eq_some_iff.mp hf).1
    rw [hname.lexeme]
    refine (superclassOf_into henv hsuperclass _ _ hm₁).bind fun ψ parent parent' hφ hm₂ hparent => ?_
    refine finishClass_into hm₂ (henv.later hφ) (frame_later hφ hf) hname ?_ hparent.2 hparent.1 hms
    rw [superclassOf_snd]
    exact binds_defineIn hlt _ _

end Classes

/-! ## 5. Native functions -/

theorem orFailed_into {α : Type} {paren paren' : Token} (hparen : R.Token paren paren')
    (r : Except ConsoleError α) :
    PartInto R φ (fun _ a a' => a' = a) (Native.orFailed paren r) (Native.orFailed paren' r) := by
  cases r with
  | ok a => exact .pure rfl
  | error e => exact .raise (.native hparen.pos)

theorem write_into (text : String) :
    PartInto R φ (fun _ a a' => a' = a) (write text) (write text) := by
  intro m m' hm
  have hsink : m'.sink.write (Text.Utf8.encode text) = m.sink.write (Text.Utf8.encode text) := by
    rw [hm.sink]
  exact .of_run rfl rfl (List.prefix_refl φ) { hm with sink := congrArg Prod.snd hsink }
    (.ok (congrArg Prod.fst hsink))

theorem readLine_into : PartInto R φ (fun _ a a' => a' = a) readLine readLine := by
  intro m m' hm
  have hline : m'.nextLine.1 = m.nextLine.1 ∧ MachineInto R φ m.nextLine.2 m'.nextLine.2 := by
    unfold Machine.nextLine
    rw [hm.sink]
    split
    · exact ⟨rfl, { hm with sink := rfl }⟩
    · rw [hm.input]
      dsimp only
      split
      · exact ⟨rfl, { hm with sink := rfl, input := rfl }⟩
      · exact ⟨rfl, { hm with sink := rfl, input := rfl }⟩
      · split <;> exact ⟨rfl, { hm with sink := rfl, input := rfl }⟩
  exact .of_run rfl rfl (List.prefix_refl φ) hline.2 (.ok hline.1)

theorem readClock_into : PartInto R φ (fun _ a a' => a' = a) readClock readClock := by
  intro m m' hm
  have hread : m'.clock.read m'.now = m.clock.read m.now := by rw [hm.clock, hm.now]
  exact .of_run rfl rfl (List.prefix_refl φ) { hm with clock := congrArg Prod.snd hread }
    (.ok (congrArg Prod.fst hread))

theorem argument_into (f : Native) {args args' : List Value}
    (h : List.Forall₂ (ValueInto R φ) args args') :
    PartInto R φ (ValueInto R) (Native.argument f args) (Native.argument f args') := by
  cases h with
  | nil => exact .fault
  | cons hv _ => exact .pure hv

theorem numberOf_into {v v' : Value} (h : ValueInto R φ v v') :
    ValueInto R φ (Native.numberOf v) (Native.numberOf v') := by
  have hdisplay := h.display
  cases h with
  | number => exact .number
  | _ =>
    simp only [Native.numberOf, hdisplay]
    split
    · exact .number
    · exact .nil

theorem native_into (f : Native) {args args' : List Value}
    (h : List.Forall₂ (ValueInto R φ) args args') {paren paren' : Token}
    (hparen : R.Token paren paren') :
    PartInto R φ (ValueInto R) (f.call args paren) (f.call args' paren') := by
  cases f with
  | clock =>
    refine readClock_into.bind fun _ shown shown' _ hshown => ?_
    subst hshown
    cases shown' with
    | some => exact .pure .number
    | none => exact .raise (.native hparen.pos)
  | print =>
    refine (argument_into .print h).bind fun ψ v v' _ hv => ?_
    rw [hv.display]
    refine (write_into _).bind fun _ r r' _ hr => ?_
    subst hr
    exact (orFailed_into hparen r').bind fun _ _ _ _ _ => .pure .nil
  | read =>
    refine readLine_into.bind fun _ r r' _ hr => ?_
    subst hr
    refine (orFailed_into hparen r').bind fun _ line line' _ hline => ?_
    subst hline
    cases line' with
    | some text => exact .pure .text
    | none => exact .pure .nil
  | tonumber => exact (argument_into .tonumber h).bind fun _ _ _ _ hv => .pure (numberOf_into hv)
  | tostring =>
    refine (argument_into .tostring h).bind fun _ v v' _ hv => ?_
    rw [hv.display]
    exact .pure .text
  | type =>
    refine (argument_into .type h).bind fun _ v v' _ hv => ?_
    rw [hv.typeName]
    exact .pure .text
  | sleep =>
    refine (argument_into .sleep h).bind fun ψ v v' _ hv => ?_
    have htype := hv.typeName
    cases hv with
    | @number x =>
      cases hx : Native.nanoseconds? x with
      | some n =>
        simp only [hx]
        intro m m' hm
        exact .of_run rfl rfl (List.prefix_refl ψ) { hm with now := congrArg (· + n) hm.now }
          (.ok .nil)
      | none =>
        simp only [hx]
        exact .raise (.native hparen.pos)
    | _ => exact .raise (.native hparen.pos)

/-! ## 6. Operators -/

section Operators

variable {op op' : Token} {a a' b b' : Value}

/-- What two operators compute, where the short program has no fault. -/
def ComputedInto (R : Rewriting) (φ : List FrameId) (c c' : Computed) : Prop :=
  (∃ f, c = .error (.fault f)) ∨ OutcomeInto R (ValueInto R φ) c c'

theorem ComputedInto.ok {v v' : Value} (h : ValueInto R φ v v') : ComputedInto R φ (.ok v) (.ok v') :=
  .inr (.ok h)

theorem ComputedInto.type {message : String} (h : R.Token op op') :
    ComputedInto R φ (wrongType message op) (wrongType message op') := .inr (.error (.type h.pos))

theorem onNumbers_into (hop : R.Token op op') {f f' : Float → Float → Computed}
    (hf : ∀ x y, ComputedInto R φ (f x y) (f' x y)) (ha : ValueInto R φ a a')
    (hb : ValueInto R φ b b') : ComputedInto R φ (onNumbers op f a b) (onNumbers op' f' a' b') := by
  cases ha with
  | number =>
    cases hb with
    | number => exact hf _ _
    | _ => exact .type hop
  | _ => exact .type hop

theorem plus_into (hop : R.Token op op') (ha : ValueInto R φ a a') (hb : ValueInto R φ b b') :
    ComputedInto R φ (plus op a b) (plus op' a' b') := by
  have hdisplay := hb.display
  cases ha with
  | number =>
    cases hb with
    | number => exact .ok .number
    | _ => exact .type hop
  | text =>
    simp only [plus, hdisplay]
    exact .ok .text
  | _ => exact .type hop

theorem quotient_into (hop : R.Token op op') (x y : Float) :
    ComputedInto R φ (quotient op x y) (quotient op' x y) := by
  unfold quotient
  split
  · exact .inr (.error (.divisionByZero hop.pos))
  · exact .ok .number

theorem binaryValue_into (hop : R.Token op op') (ha : ValueInto R φ a a') (hb : ValueInto R φ b b') :
    ComputedInto R φ (binaryValue op a b) (binaryValue op' a' b') := by
  unfold binaryValue
  rw [hop.kind, ha.same_eq hb]
  split
  · exact .ok hb
  · exact plus_into hop ha hb
  · exact onNumbers_into hop (fun _ _ => .ok .number) ha hb
  · exact onNumbers_into hop (fun _ _ => .ok .number) ha hb
  · exact onNumbers_into hop (quotient_into hop) ha hb
  · exact onNumbers_into hop (fun _ _ => .ok .bool) ha hb
  · exact onNumbers_into hop (fun _ _ => .ok .bool) ha hb
  · exact onNumbers_into hop (fun _ _ => .ok .bool) ha hb
  · exact onNumbers_into hop (fun _ _ => .ok .bool) ha hb
  · exact .ok .bool
  · exact .ok .bool
  · exact .inl ⟨_, rfl⟩

theorem unaryValue_into (hop : R.Token op op') (ha : ValueInto R φ a a') :
    ComputedInto R φ (unaryValue op a) (unaryValue op' a') := by
  have htruthy := ha.isTruthy
  unfold unaryValue
  rw [hop.kind]
  generalize op.kind = kind
  cases kind with
  | minus =>
    cases ha with
    | number => exact .ok .number
    | _ => exact .type hop
  | bang =>
    dsimp only
    rw [htruthy]
    exact .ok .bool
  | _ => exact .inl ⟨_, rfl⟩

theorem decides_into (hop : R.Token op op') (ha : ValueInto R φ a a') :
    decides op' a' = decides op a := by
  unfold decides
  rw [hop.kind, ha.isTruthy]

/-- What an operator computes, as a computation. -/
theorem computed_into {c c' : Computed} (h : ComputedInto R φ c c') :
    PartInto R φ (ValueInto R) (liftM c) (liftM c') := by
  obtain ⟨f, rfl⟩ | h := h
  · exact fun _ _ _ => .of_fault rfl
  · cases h with
    | ok hv => exact .pure hv
    | error he => exact .raise he

end Operators

end Lox
