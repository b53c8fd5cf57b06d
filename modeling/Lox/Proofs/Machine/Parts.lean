import Lox.Proofs.Machine.Safe

/-!
# Classes, native functions and operators without faults

* A class statement makes methods that fit their places: they lack the frame of `this` alone, and
  that of `super` is there where the class has a superclass (`declareClass_safe`).
* A native function is safe with as many arguments as it takes. It touches neither frames nor fields.
* An operator knows its token, if that is one that joins operands or stands in front of one.
-/

namespace Lox

variable {w : World} {k : Nat} {m : Machine} {v : Visit}

/-! ## 1. Declarations keep the layers -/

/-- A part with the same layers, whatever names they have. -/
theorem PlacedAt.inside {program : List Stmt} {node child : Node} {p q : Place} {env : Env}
    (hp : PlacedAt w k m v program node p env) (hi : Inside node p child q)
    (hr : q.layers.map Layer.region = p.layers.map Layer.region) :
    PlacedAt w k m v program child q env where
  accepted := hp.accepted
  loaded := hp.loaded
  occurs := .inside hp.occurs hi
  activated := hp.activated.regions hr
  bound := hp.bound.regions hr

/-- A part with the same layers. -/
theorem ReadyAt.inside {program : List Stmt} {node child : Node} {p q : Place} {env : Env}
    (hp : ReadyAt w k m v program node p env) (hi : Inside node p child q)
    (hl : q.layers = p.layers) : ReadyAt w k m v program child q env where
  toPlacedAt := hp.toPlacedAt.inside hi (by rw [hl])
  filled := hl ▸ hp.filled.imp fun _ _ hw => hw.inside hi

/-- **Behind a declaration**, the first frame binds its name as well. -/
theorem ReadyAt.filled_declare {program : List Stmt} {node : Node} {p : Place} {env : Env}
    {name : String} {m' : Machine} (hp : ReadyAt w k m v program node p env)
    (hk : Keeps m.store m'.store) (hname : BoundSince m env name m') :
    Filled m'.store (Awaits program node p) env (p.declare name).layers := by
  refine (hp.filled.mono hk).declare (fun _ _ _ hr hw => hw.regions hr) fun f hf hlayers => ?_
  refine .inl (hname f hf ?_)
  -- a place with layers has a frame for the first of them
  have hfilled := hp.filled
  obtain ⟨outer, rfl⟩ := hf
  cases hlayer : p.layers with
  | nil => exact absurd hlayer hlayers
  | cons l layers =>
    rw [hlayer] at hfilled
    cases hfilled with
    | layer hf _ _ => exact hf

/-- **In an initializer**: its variable is awaited. -/
theorem ReadyAt.initializer {program : List Stmt} {name : Token} {init : Expr} {p : Place}
    {env : Env} (hp : ReadyAt w k m v program (.stmt (.varDecl name init)) p env) :
    ReadyAt w k m v program (.expr init) (p.declare name.lexeme) env where
  toPlacedAt := hp.toPlacedAt.inside .initializer (p.declare_regions name.lexeme)
  filled := (hp.filled.imp fun _ _ hw => hw.inside .initializer).declare
    (fun _ _ _ hr hw => hw.regions hr) fun _ _ _ => .inr (.initializer hp.occurs)

/-! ## 2. Classes -/

theorem Bindings.mem_of_find?_ofPairs {α : Type} {ps : List (String × α)} {n : String} {a : α}
    (h : (Bindings.ofPairs ps).find? n = some a) : (n, a) ∈ ps := by
  -- over the bindings that the fold has made so far
  have hfold : ∀ (ps : List (String × α)) (b : Bindings α),
      Bindings.find? (ps.foldl (fun b p => b.put p.1 p.2) b) n = some a →
        (n, a) ∈ ps ∨ b.find? n = some a := by
    intro ps
    induction ps with
    | nil => exact fun b hb => .inr hb
    | cons q rest ih =>
      intro b hb
      cases ih _ hb with
      | inl hmem => exact .inl (List.mem_cons_of_mem _ hmem)
      | inr hput =>
        rw [find?_put] at hput
        split at hput
        · next hq =>
          cases hput
          exact .inl (hq ▸ List.mem_cons_self)
        · exact .inr hput
  exact (hfold ps [] h).resolve_right fun h => nomatch h

section Classes

variable {program : List Stmt} {p : Place} {env inner : Env} {name : Token}
  {superclass : Option Reference} {methods : List FunDecl} {layers : List Layer}

/-- The methods that a class statement makes. -/
theorem methodAt_of_declared (haccepted : w.programs program) (hloaded : Loaded m.distances k program)
    (hoccurs : Occurs program (.stmt (.classDecl name superclass methods)) p)
    (haround : (p.declare name.lexeme).classLayers (.classDecl name superclass methods) superclass
      = ⟨.this (.classDecl name superclass methods), [thisName]⟩ :: layers)
    (hactivated : Activated w.calls v inner layers) (hbound : Bound w.calls m.store inner layers)
    (hfilled : Filled m.store
      (Awaits program (.stmt (.classDecl name superclass methods)) p) inner layers)
    (hvisited : w.calls v)
    (hdeclared : Declares v.call v.machine (.classDecl name superclass methods) inner)
    {n : String} {f : Closure}
    (hf : (Bindings.ofPairs (methods.map (methodOf inner))).find? n = some f) :
    ∃ v program p s layers, MethodAt w k m v program p s layers f := by
  obtain ⟨decl, hmem, heq⟩ := List.mem_map.mp (Bindings.mem_of_find?_ofPairs hf)
  obtain ⟨method, code⟩ := decl
  cases heq
  exact ⟨v, program, _, _, layers, haccepted, hloaded, .inside hoccurs (.method hmem), haround,
    hactivated, hbound, hfilled.imp fun _ _ hw => hw.inside (.method hmem),
    fun hinit => if_pos (of_decide_eq_true hinit), ⟨method, hmem⟩, hvisited, hdeclared⟩

theorem ClassOk.mk {id : Identity} {name : String} {parent : Option Class}
    {own : Bindings Closure} (hparent : ∀ c, parent = some c → ClassOk w k m c)
    (hown : ∀ n f, own.find? n = some f → ∃ v program p s layers, MethodAt w k m v program p s layers f) :
    ClassOk w k m (.mk id name parent own) := by
  intro n f hf
  cases parent with
  | none => exact hown n f hf
  | some c =>
    cases hfind : own.find? n with
    | some g =>
      rw [Class.method?, hfind] at hf
      cases hf
      exact hown n _ hfind
    | none =>
      rw [Class.method?, hfind] at hf
      exact hparent c rfl n f hf

theorem superclassOf_safe (h : Good w k m)
    (hp : ∀ ref, superclass = some ref → PlacedAt w k m v program (.expr (.read ref)) p env) :
    Safe w k m (superclassOf superclass env)
      (fun m' parent => m' = m ∧ parent.isSome = superclass.isSome ∧
        ∀ c, parent = some c → ClassOk w k m c) := by
  cases superclass with
  | none => exact .pure h ⟨rfl, rfl, fun c hc => nomatch hc⟩
  | some ref =>
    refine (lookUp_safe h (hp ref rfl) rfl).bind fun v m' _ _ hv => ?_
    obtain ⟨rfl, hvalue⟩ := hv
    cases v with
    | ofClass c =>
      refine .pure h ⟨rfl, rfl, fun c' hc => ?_⟩
      cases hc
      exact hvalue
    | _ => exact .raise h

theorem run_assignNearest (name : Token) (env : Env) (v : Value) (m : Machine) :
    (assignNearest name env v).run m = (match m.store.owner? env name.lexeme with
      | some f => modifyStore (·.defineIn f name.lexeme v)
      | none => raise (.undefinedVariable name.lexeme name.pos) : Run Unit).run m := rfl

/-- Binding a name anew that the innermost frame binds. -/
theorem assignNearest_innermost {f : FrameId} {outer : Env} {v : Value}
    (h : (m.store.frame f).binds name.lexeme = true) :
    (assignNearest name (f :: outer) v).run m
      = (.ok (), { m with store := m.store.defineIn f name.lexeme v }) := by
  have howner : m.store.owner? (f :: outer) name.lexeme = some f := by
    rw [Store.owner?, if_pos h]
  rw [run_assignNearest, howner]
  rfl

/-- A frame in the store binds what is defined in it. -/
theorem binds_defineIn {s : Store} {f : FrameId} (hf : f < s.frames.size) (n : String) (v : Value) :
    ((s.defineIn f n v).frame f).binds n = true := by
  rw [Store.frame_defineIn, if_pos ⟨rfl, hf⟩, Bindings.binds, Bindings.find?_put_self]
  rfl

theorem assignNearest_safe (h : Good w k m) {v : Value} (hn : Plain name.lexeme)
    (hv : ValueOk w k m v) : Safe w k m (assignNearest name env v) (fun _ _ => True) := by
  have hrun := run_assignNearest name env v m
  cases hf : m.store.owner? env name.lexeme with
  | some f =>
    rw [hf] at hrun
    exact .of_ok hrun (.defineIn h hn hv.later) trivial
  | none =>
    rw [hf] at hrun
    exact .of_raised h hrun

/-- What is left of a class declaration when its methods have their environment. -/
def bindClass (name : Token) (parent : Option Class) (own : Bindings Closure) (env : Env) :
    Run Unit := do
  let id ← allocate Store.newIdentity
  assignNearest name env (.ofClass (.mk id name.lexeme parent own))

/-- What is left of a class declaration when its superclass is known. -/
def finishClass (name : Token) (methods : List FunDecl) (env : Env) (parent : Option Class) :
    Run Unit := do
  let inner ← methodEnv parent env
  bindClass name parent (Bindings.ofPairs (methods.map (methodOf inner))) env

theorem bindClass_safe (h : Good w k m) {parent : Option Class} (hn : Plain name.lexeme)
    (hparent : ∀ c, parent = some c → ClassOk w k m c)
    (hown : ∀ n f, (Bindings.ofPairs (methods.map (methodOf inner))).find? n = some f →
      ∃ v program p s layers, MethodAt w k m v program p s layers f) :
    Safe w k m (bindClass name parent (Bindings.ofPairs (methods.map (methodOf inner))) env)
      (fun _ _ => True) := by
  have hid : Safe w k m (allocate Store.newIdentity) (fun _ _ => True) :=
    .of_ok rfl (.newIdentity h) trivial
  refine hid.bind fun id m' _ hafter _ => ?_
  have hclass : ValueOk w k m (.ofClass (.mk id name.lexeme parent _)) := ClassOk.mk hparent hown
  exact assignNearest_safe hafter.good hn (hclass.later hafter.later)

theorem declareClass_safe (h : Good w k m) {n : Nat}
    (hv : v = ⟨n + 1, .execute (.classDecl name superclass methods) env, m⟩)
    (hp : ReadyAt w k m v program (.stmt (.classDecl name superclass methods)) p env)
    (hcall : w.calls v) :
    Safe w k m (declareClass name superclass methods env)
      (fun m' _ => BoundSince m env name.lexeme m') := by
  have hshaped : (Stmt.classDecl name superclass methods).Shaped Token.Spelled :=
    hp.occurs.shaped hp.loaded.shaped
  have hn : Plain name.lexeme := hshaped.1.plain
  have hdefine : Safe w k m (modifyStore (·.define env name.lexeme .nil))
      (fun m' _ => m' = { m with store := m.store.define env name.lexeme .nil }) :=
    .of_ok rfl (.define h hn fun _ => trivial) rfl
  refine hdefine.bind fun _ m₁ _ hafter hm₁ => ?_
  have hname : BoundSince m env name.lexeme m₁ := hm₁ ▸ .define env name.lexeme .nil (.refl _)
  refine Safe.since (?_ : Safe w k m₁ _ fun _ _ => True) hname
  have hp₁ : ReadyAt w k m₁ v program (.stmt (.classDecl name superclass methods)) p env :=
    hp.later hafter.later
  have hactivated := hp₁.activated.regions (p.declare_regions name.lexeme)
  have hbound := hp₁.bound.regions (p.declare_regions name.lexeme)
  have hfilled := hp.filled_declare hafter.keeps hname
  have hsuperclass := superclassOf_safe hafter.good fun ref (href : superclass = some ref) =>
    hp₁.toPlacedAt.inside (href ▸ .superclass) (p.declare_regions name.lexeme)
  refine hsuperclass.bind fun parent m₁ hrun _ hparent => ?_
  obtain ⟨rfl, hsome, hparent⟩ := hparent
  cases superclass with
  | none =>
    cases parent with
    | some c => cases hsome
    | none =>
      refine bindClass_safe hafter.good hn hparent fun n f hf => ?_
      exact methodAt_of_declared hp₁.accepted hp₁.loaded hp₁.occurs rfl hactivated hbound hfilled
        hcall (by rw [hv]; exact .base) hf
  | some ref =>
    cases parent with
    | none => cases hsome
    | some c =>
      have hc : ValueOk w k m₁ (.ofClass c) := hparent c rfl
      have hframe : Safe w k m₁ (methodEnv (some c) env) (fun m' inner =>
          inner = m₁.store.frames.size :: env ∧ m₁.store.frames.size < m'.store.frames.size ∧
            m'.store.frame m₁.store.frames.size = [(superName, .ofClass c)]) := by
        refine .of_ok rfl (.pushOne hafter.good superName hc) ⟨rfl, ?_, ?_⟩
        · rw [Array.size_push]
          exact Nat.lt_succ_self _
        · rw [Store.frame_push, if_pos rfl]
      refine hframe.bind fun inner m₂ _ hafter₂ hinner => ?_
      obtain ⟨rfl, hsize, hsuper⟩ := hinner
      have hfind : (m₂.store.frame m₁.store.frames.size).find? superName = some (.ofClass c) := by
        rw [hsuper]
        rfl
      have hloaded := hp₁.loaded.mono hafter₂.later.le hafter₂.later.ids
      have hderived : Declares (.execute (.classDecl name (some ref) methods) env) m
          (.classDecl name (some ref) methods) (m₁.store.frames.size :: env) := by
        rw [hm₁] at hrun ⊢
        exact .derived hrun
      have hinherits : Inherits ⟨n + 1, .execute (.classDecl name (some ref) methods) env, m⟩
          (.classDecl name (some ref) methods) env c m₁.store.frames.size := by
        rw [hm₁] at hrun ⊢
        exact .intro hrun
      refine bindClass_safe hafter₂.good hn (fun c' hc' => ?_) fun n f hf => ?_
      · exact (hparent c' hc').later hafter₂.later
      · subst hv
        refine methodAt_of_declared hp₁.accepted hloaded hp₁.occurs rfl
          (.super hcall hderived hactivated)
          (.layer ⟨_, c, hcall, hinherits, hfind⟩ (hafter₂.keeps.bound hbound))
          (.layer hsize (fun n hn => .inl ?_) (hfilled.mono hafter₂.keeps)) hcall hderived hf
        obtain rfl := List.mem_singleton.mp hn
        exact Option.isSome_iff_exists.mpr ⟨_, hfind⟩

end Classes

/-! ## 3. Native functions -/

theorem write_safe (h : Good w k m) (text : String) : Safe w k m (write text) (fun _ _ => True) :=
  .of_ok rfl (.of_same h (fun _ => rfl) rfl (fun _ => rfl) rfl) trivial

/-- Reading a line changes nothing but the sink and the input. -/
theorem nextLine_snd (m : Machine) :
    ∃ sink input, m.nextLine.2 = { m with sink := sink, input := input } := by
  unfold Machine.nextLine
  split
  · exact ⟨_, m.input, rfl⟩
  · next sink _ =>
    refine ⟨sink, m.input.programLine.2, ?_⟩
    dsimp only
    split
    · rfl
    · rfl
    · split <;> rfl

theorem readLine_safe (h : Good w k m) : Safe w k m readLine (fun _ _ => True) := by
  obtain ⟨sink, input, hm⟩ := nextLine_snd m
  have hrun : readLine.run m = (.ok m.nextLine.1, { m with sink := sink, input := input }) := by
    rw [← hm]
    rfl
  exact .of_ok hrun (.of_same h (fun _ => rfl) rfl (fun _ => rfl) rfl) trivial

theorem readClock_safe (h : Good w k m) : Safe w k m readClock (fun _ _ => True) :=
  .of_ok rfl (.of_same h (fun _ => rfl) rfl (fun _ => rfl) rfl) trivial

theorem orFailed_safe {α : Type} (h : Good w k m) (paren : Token) (r : Except ConsoleError α) :
    Safe w k m (Native.orFailed paren r) (fun _ _ => True) := by
  cases r with
  | ok a => exact .pure h trivial
  | error e => exact .raise h

theorem run_sleep (x : Float) (paren : Token) (m : Machine) :
    (Native.call .sleep [.number x] paren).run m = (match Native.nanoseconds? x with
      | some n => do
        modify fun m => { m with now := m.now + n }
        return .nil
      | none => Native.failed paren ("Cannot sleep for "
        ++ String.ofList (Decimal.plain (Decimal.parts x)) ++ " seconds.") : Run Value).run m := rfl

/-- **A native function with as many arguments as it takes.** -/
theorem native_safe (h : Good w k m) {f : Native} {args : List Value} (paren : Token)
    (hn : args.length = f.arity) : Safe w k m (f.call args paren) (ValueOk w k) := by
  -- where one argument is taken, it is there
  have hone : f.arity = 1 → ∃ v, args = [v] := fun h1 => List.length_eq_one_iff.mp (hn.trans h1)
  cases f with
  | clock =>
    refine (readClock_safe h).bind fun shown m₁ _ h₁ _ => ?_
    cases shown with
    | some shown => exact .pure h₁.good trivial
    | none => exact .raise h₁.good
  | print =>
    obtain ⟨v, rfl⟩ := hone rfl
    have hargument : Safe w k m (Native.argument .print [v]) (fun _ _ => True) :=
      .of_ok rfl (.refl h) trivial
    refine hargument.bind fun v m₀ _ h₀ _ => ?_
    refine (write_safe h₀.good _).bind fun r m₁ _ h₁ _ => ?_
    exact (orFailed_safe h₁.good paren r).bind fun _ m₂ _ h₂ _ => .pure h₂.good trivial
  | read =>
    refine (readLine_safe h).bind fun r m₁ _ h₁ _ => ?_
    refine (orFailed_safe h₁.good paren r).bind fun line m₂ _ h₂ _ => ?_
    cases line with
    | some text => exact .pure h₂.good trivial
    | none => exact .pure h₂.good trivial
  | tonumber =>
    obtain ⟨v, rfl⟩ := hone rfl
    have hv : ∀ v, ValueOk w k m (Native.numberOf v) := by
      intro v
      unfold Native.numberOf
      split
      · trivial
      · split <;> trivial
    exact .of_ok rfl (.refl h) (hv v)
  | tostring =>
    obtain ⟨v, rfl⟩ := hone rfl
    exact .of_ok rfl (.refl h) trivial
  | type =>
    obtain ⟨v, rfl⟩ := hone rfl
    exact .of_ok rfl (.refl h) trivial
  | sleep =>
    obtain ⟨v, rfl⟩ := hone rfl
    cases v with
    | number x =>
      have hrun := run_sleep x paren m
      cases hx : Native.nanoseconds? x with
      | some n =>
        rw [hx] at hrun
        exact .of_ok hrun (.of_same h (fun _ => rfl) rfl (fun _ => rfl) rfl) trivial
      | none =>
        rw [hx] at hrun
        exact .of_raised h hrun
    | _ => exact .of_raised h rfl

/-! ## 4. Operators -/

/-- What an operator computes: a value that holds no function or class but those of the operands, or
    an error of the program. -/
def Computed.Fine (c : Computed) (ok : Value → Prop) : Prop :=
  match c with
  | .ok v => ok v
  | .error e => ∀ f, e ≠ .fault f

theorem Computed.Fine.safe (h : Good w k m) {c : Computed} (hc : c.Fine (ValueOk w k m)) :
    Safe w k m (liftM c) (ValueOk w k) := by
  cases c with
  | ok v => exact .of_ok rfl (.refl h) hc
  | error e => exact .of_error rfl (.refl h) hc

theorem onNumbers_fine {op : Token} {f : Float → Float → Computed} {a b : Value} {ok : Value → Prop}
    (hf : ∀ x y, (f x y).Fine ok) : (onNumbers op f a b).Fine ok := by
  unfold onNumbers
  split
  · exact hf _ _
  · exact fun _ h => nomatch h

theorem binaryValue_fine {op : Token} {a b : Value} (hop : joinsOperands op.kind = true)
    (hb : ValueOk w k m b) : (binaryValue op a b).Fine (ValueOk w k m) := by
  unfold binaryValue
  split
  · exact hb
  · unfold plus
    split
    · trivial
    · trivial
    · exact fun _ h => nomatch h
  · exact onNumbers_fine fun _ _ => trivial
  · exact onNumbers_fine fun _ _ => trivial
  · refine onNumbers_fine fun x y => ?_
    unfold quotient
    split
    · exact fun _ h => nomatch h
    · trivial
  · exact onNumbers_fine fun _ _ => trivial
  · exact onNumbers_fine fun _ _ => trivial
  · exact onNumbers_fine fun _ _ => trivial
  · exact onNumbers_fine fun _ _ => trivial
  · trivial
  · trivial
  · unfold joinsOperands at hop
    split at hop <;> contradiction

theorem unaryValue_fine {op : Token} {v : Value} (hop : op.kind = .bang ∨ op.kind = .minus) :
    (unaryValue op v).Fine (ValueOk w k m) := by
  unfold unaryValue
  split
  · trivial
  · exact fun _ h => nomatch h
  · trivial
  · next hminus hbang _ =>
    cases hop with
    | inl h => exact (hbang h).elim
    | inr h => exact (hminus h).elim

theorem returned_safe (h : Good w k m) {f : Closure} {s : Signal} (henv : 0 < f.env.length)
    (hs : ∀ v, s = .ret v → ValueOk w k m v) : Safe w k m (returned f s) (ValueOk w k) := by
  unfold returned
  split
  · have hread := readIn_safe h (readAt_run (t := hiddenThis) (List.getElem?_eq_getElem henv))
    exact hread.mono fun m' v hv => hv.1 ▸ hv.2
  · cases s with
    | ret v => exact .pure h (hs v rfl)
    | normal | leave | next => exact .pure h trivial

end Lox
