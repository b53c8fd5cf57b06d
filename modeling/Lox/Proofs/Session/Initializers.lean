import Lox.Proofs.Session.Instances
import Lox.Proofs.Session.Positions

/-!
# Classes that are called

A class is called with as many arguments as its initializer takes, and makes a new instance. What its
initializer returns makes no difference: an initializer yields the instance that it was bound to.

* `Class.Made.isInitializer`: of the methods of a class, those found under the name of initializers are
  initializers, and no others.
* `initializer_yields`: **an initializer that returns yields its instance**, which the frame in front of
  its environment binds to `this`.
* `call_ofClass`: a class refuses arguments exactly when there are too many or too few of them.
* `initializers_yield_their_instance`: calls of classes and of initializers, however these were got.
-/

namespace Lox

variable {fuel n k : Nat} {s : Session} {entries : List Entry} {W H : History} {m m' : Machine}
  {cs : List Class} {sink : Sink} {input : Input} {now : Instant} {clock : Clock}

/-! ## 1. Methods that are initializers -/

/-- How many arguments a class takes: as many as the nearest initializer of its chain, or none. -/
def Class.parameters (c : Class) : Nat :=
  match c.chain.findSome? fun k => k.methods.find? initializerName with
  | some f => f.code.params.length
  | none => 0

theorem Class.arity_eq_parameters (c : Class) : c.arity = c.parameters := by
  rw [arity, parameters, method?_chain]
  cases c.chain.findSome? fun k => k.methods.find? initializerName <;> rfl

theorem isInitializer_of_find? {methods : List FunDecl} {inner : Env} {x : String} {f : Closure}
    (h : (Bindings.ofPairs (methods.map (methodOf inner))).find? x = some f) :
    f.isInitializer = true ↔ x = initializerName := by
  obtain ⟨⟨name, code⟩, -, heq⟩ := List.mem_map.mp (Bindings.mem_of_find?_ofPairs h)
  cases heq
  exact decide_eq_true_iff

/-- **A method is an initializer** exactly if it is found under the name of initializers. -/
theorem Class.Made.isInitializer {c : Class} (h : c.Made W) {x : String} {f : Closure}
    (hf : c.method? x = some f) : f.isInitializer = true ↔ x = initializerName := by
  induction h with
  | base => exact isInitializer_of_find? hf
  | @derived _ _ _ methods env _ _ g _ _ _ _ ih =>
    rw [method?] at hf
    cases hown : (Bindings.ofPairs (methods.map (methodOf (g :: env)))).find? x with
    | some f' =>
      rw [hown] at hf
      cases hf
      exact isInitializer_of_find? hown
    | none =>
      rw [hown] at hf
      exact ih hf

/-! ## 2. Initializers that return -/

/-- **A function is a method bound to an instance**: a frame of its own in front of the environment binds
    `this` to the instance. -/
structure BoundTo (s : Store) (f g : Closure) (frame : FrameId) (o : ObjectId) (d : Class) : Prop where
  code : f.code = g.code
  env : f.env = frame :: g.env
  this : (s.frame frame).find? thisName = some (.object o d)

/-- What is called, is called with what it takes, on a machine on which all is good. -/
theorem SafeCall.after {w : World} {c : Call} (h : SafeCall w k n m c) :
    After w k m (machineAfter n m c) := by
  cases c <;> exact Safe.after h

/-- **No call changes what `this` is** in a frame. -/
theorem this_machineAfter {c : Call} (hv : Visited fuel (.start sink input now clock) entries ⟨n, c, m⟩)
    {f : FrameId} {v : Value} (h : (m.store.frame f).find? thisName = some v) :
    ((machineAfter n m c).store.frame f).find? thisName = some v := by
  obtain ⟨k, hgood, hok⟩ := visited_ok (start_sound _ sink input now clock) hv
  have hafter := (safeAt (worldOf_closed fuel _ entries) n c m hv hgood hok).after
  exact hafter.keeps.fixed f thisName v (fun hplain => hplain.1 rfl) h

/-- The instance that an initializer was bound to. -/
theorem initializer_bound {f : Closure} {args : List Value}
    (hv : Visited fuel (.start sink input now clock) entries ⟨n, .invoke f args, m⟩)
    (hf : f.isInitializer = true) :
    ∃ u g o d frame, Visited fuel (.start sink input now clock) entries u ∧ Obtains u g o d frame ∧
      BoundTo m.store f g frame o d := by
  obtain ⟨k, -, ⟨v, program, p, -, hp, hinit, hthrough⟩, -⟩ :=
    visited_ok (start_sound _ sink input now clock) hv
  obtain ⟨decl, hdecl⟩ := headsClass_of_initializer hp.occurs (hinit hf)
  obtain ⟨u, g, o, d, frame, hu, hobtains, hcode, henv, hthis⟩ := hthrough decl hdecl
  exact ⟨u, g, o, d, frame, hu, hobtains, hcode.symm, henv, hthis⟩

/-- **An initializer that returns yields its instance**, whatever path its body takes. -/
theorem initializer_yields {f g : Closure} {args : List Value} {frame : FrameId} {o : ObjectId}
    {d : Class} {v : Value} (hv : Visited fuel (.start sink input now clock) entries ⟨n, .invoke f args, m⟩)
    (hf : f.isInitializer = true) (hbound : BoundTo m.store f g frame o d)
    (hrun : (invoke n f args).run m = (.ok v, m')) : v = .object o d := by
  cases n with
  | zero => cases hrun
  | succ n =>
    -- the frame of the call is new, so that of the instance is as it was
    have hbegin : (newFrame f.env (parameterBindings f args)).run m
        = (.ok (m.store.frames.size :: f.env),
          { m with store := { m.store with frames := m.store.frames.push _ } }) := rfl
    obtain ⟨r, m₁, hbody, hreturn⟩ := ok_of_run_bind ((run_bind_ok hbegin).symm.trans hrun)
    have hthis : (({ m.store with frames := m.store.frames.push (parameterBindings f args) } :
        Store).frame frame).find? thisName = some (.object o d) := by
      rw [Store.frame_push, if_neg]
      · exact hbound.this
      · rintro rfl
        have hnone := hbound.this
        rw [Store.frame, Array.getElem?_eq_none (Nat.le_refl _)] at hnone
        cases hnone
    have hfound := this_machineAfter (hv.makes (.body hbegin)) hthis
    rw [machineAfter, hbody] at hfound
    unfold returned at hreturn
    rw [if_pos hf, readAt_run (show f.env[0]? = some frame by rw [hbound.env]; rfl), readIn,
      show hiddenThis.lexeme = thisName from rfl, hfound] at hreturn
    cases hreturn
    rfl

/-! ## 3. Classes that are called -/

section Calls

variable {c : Class} {vs : List Value} {paren : Token}

/-- **A call of a class** makes a new instance without fields, and calls the initializer bound to it, where
    the class has one. -/
theorem apply_ofClass (hv : Visited fuel (.start sink input now clock) entries
      ⟨n + 1, .apply (.ofClass c) vs paren, m⟩) :
    let o := m.store.objects.size
    let H := Visited fuel (.start sink input now clock) entries
    match c.chain.findSome? (fun k => k.methods.find? initializerName) with
    | none => ∃ m', (apply (n + 1) (.ofClass c) vs paren).run m = (.ok (.object o c), m') ∧
        m'.store.objects.size = o + 1 ∧ m'.store.fields o = []
    | some g => ∃ f frame m', H ⟨n, .invoke f vs, m'⟩ ∧ f.isInitializer = true ∧
        BoundTo m'.store f g frame o c ∧ m'.store.objects.size = o + 1 ∧ m'.store.fields o = [] ∧
        (∀ v m'', (invoke n f vs).run m' = (.ok v, m'') → v = .object o c) ∧
        (apply (n + 1) (.ofClass c) vs paren).run m = (invoke n f vs).run m' := by
  intro o H
  have hsize : (m.store.newObject.2).objects.size = o + 1 := Array.size_push _
  have hfields : (m.store.newObject.2).fields o = [] := by
    rw [Store.fields_newObject, Store.fields, Array.getElem?_eq_none (Nat.le_refl _)]
    rfl
  obtain ⟨cs, -, -, -, hmade, -⟩ := visited_fit hv
  have hrun : (apply (n + 1) (.ofClass c) vs paren).run m = (match c.method? initializerName with
      | some f => do
        let _ ← invoke n (← bindMethod f (.object o c)) vs
        return .object o c
      | none => return .object o c : Run Value).run { m with store := m.store.newObject.2 } := rfl
  rw [hrun]
  rw [← Class.method?_chain]
  cases hf : c.method? initializerName with
  | none => exact ⟨_, rfl, hsize, hfields⟩
  | some g =>
    have hinit : g.isInitializer = true := (hmade.1.isInitializer hf).mpr rfl
    let frames := m.store.frames.push [(thisName, .object o c)]
    let m' : Machine := { m with store := { m.store.newObject.2 with frames } }
    let f : Closure := { g with env := m.store.frames.size :: g.env }
    have hframe : (m'.store.frame m.store.frames.size).find? thisName = some (.object o c) := by
      show (({ m.store.newObject.2 with frames } : Store).frame m.store.frames.size).find? thisName = _
      rw [show ({ m.store.newObject.2 with frames } : Store).frame m.store.frames.size
        = [(thisName, .object o c)] from (Store.frame_push _ _ _).trans (if_pos rfl)]
      rfl
    have hbound : BoundTo m'.store f g m.store.frames.size o c := ⟨rfl, rfl, hframe⟩
    have hinvoke : H ⟨n, .invoke f vs, m'⟩ := hv.makes (.initializer hf rfl rfl)
    have hthis : ∀ v m'', (invoke n f vs).run m' = (.ok v, m'') → v = .object o c :=
      fun v m'' hrun => initializer_yields hinvoke hinit hbound hrun
    refine ⟨f, m.store.frames.size, m', hinvoke, hinit, hbound, hsize, hfields, hthis, ?_⟩
    refine (run_bind_ok (bindMethod_run g _)).trans ?_
    cases hrun : (invoke n f vs).run m' with
    | mk r m'' =>
      cases r with
      | ok v =>
        obtain rfl := hthis v m'' hrun
        exact run_bind_ok hrun
      | error e => exact run_bind_error hrun

/-- A call of a class leaves one instance more, at least, if it has fuel. -/
theorem lt_size_apply (hv : Visited fuel (.start sink input now clock) entries
      ⟨n + 1, .apply (.ofClass c) vs paren, m⟩) :
    m.store.objects.size < ((apply (n + 1) (.ofClass c) vs paren).run m).2.store.objects.size := by
  have happly := apply_ofClass hv
  dsimp only at happly
  split at happly
  · obtain ⟨m', hrun, hsize, -⟩ := happly
    rw [hrun, hsize]
    exact Nat.lt_succ_self _
  · obtain ⟨f, frame, m', hinvoke, -, -, hsize, -, -, hrun⟩ := happly
    obtain ⟨cs, -, hpopulated, -, hfit⟩ := visited_fit hinvoke
    obtain ⟨cs', hsince⟩ := (handlesAt (visited_closed fuel _ entries) (fun _ h => h) n
      (.invoke f vs) m' cs hinvoke hpopulated hfit).since
    rw [hrun]
    refine Nat.lt_of_lt_of_le (show _ < m'.store.objects.size by rw [hsize]; exact Nat.lt_succ_self _) ?_
    have hle := hsince.classes.length_le
    rw [← hpopulated.size, ← hsince.populated.size] at hle
    exact hle

/-- **A class refuses its arguments** exactly when it does not take as many, and is called else. -/
theorem call_ofClass {callee : Expr} {args : List Expr} {env : Env} {m₁ m₂ : Machine}
    (hv : Visited fuel (.start sink input now clock) entries ⟨n + 1, .evaluate (.call callee paren args) env, m⟩)
    (hcallee : (evaluate n callee env).run m = (.ok (.ofClass c), m₁))
    (hargs : (evaluateAll n args env).run m₁ = (.ok vs, m₂)) :
    ((evaluate (n + 1) (.call callee paren args) env).run m
        = (.error (.error (.arity c.parameters vs.length paren.pos)), m₂) ↔
      vs.length ≠ c.parameters) ∧
    (vs.length = c.parameters → (evaluate (n + 1) (.call callee paren args) env).run m
      = (apply n (.ofClass c) vs paren).run m₂) := by
  have hrun : (evaluate (n + 1) (.call callee paren args) env).run m
      = (if vs.length = c.arity then apply n (.ofClass c) vs paren
          else raise (.arity c.arity vs.length paren.pos) : Run Value).run m₂ :=
    (run_bind_ok hcallee).trans (run_bind_ok hargs)
  rw [hrun, c.arity_eq_parameters]
  by_cases hk : vs.length = c.parameters
  · rw [if_pos hk]
    refine ⟨⟨fun hrefused => ?_, fun hne => absurd hk hne⟩, fun _ => rfl⟩
    have hmade : Visited fuel (.start sink input now clock) entries ⟨n, .apply (.ofClass c) vs paren, m₂⟩ :=
      hv.makes (.applied hcallee hargs (by rw [hk, ← c.arity_eq_parameters]; rfl))
    cases n with
    | zero => cases hrefused
    | succ n =>
      have hlt := lt_size_apply hmade
      rw [hrefused] at hlt
      exact absurd hlt (Nat.lt_irrefl _)
  · rw [if_neg hk]
    exact ⟨⟨fun _ => hk, fun _ => rfl⟩, fun h => absurd h hk⟩

end Calls

/-! ## 4. Initializers that are got -/

/-- A method bound to an instance, as a value. -/
theorem methodOr_bound {c d : Class} {name : Token} {o : ObjectId} {v : Value}
    (hrun : (methodOr c name o d).run m = (.ok v, m')) :
    ∃ id f g frame, v = .function id f ∧ c.method? name.lexeme = some g ∧
      f.isInitializer = g.isInitializer ∧ BoundTo m'.store f g frame o d := by
  have hmethod := methodOr_run c name o d m
  rw [← Class.method?_chain] at hmethod
  cases hf : c.method? name.lexeme with
  | none =>
    rw [hf] at hmethod
    rw [hmethod] at hrun
    cases hrun
  | some g =>
    rw [hf] at hmethod
    obtain ⟨id, frame, m₁, hbound, hthis⟩ := hmethod
    rw [hbound] at hrun
    cases hrun
    exact ⟨id, _, g, frame, rfl, rfl, rfl, rfl, rfl, by rw [hthis]; rfl⟩

section Got

variable {name : Token} {env : Env} {v : Value}

/-- **A method that an instance gives** is bound to it, and an initializer exactly under their name. -/
theorem get_bound {object : Expr} {o : ObjectId} {c : Class} {m₁ : Machine}
    (hv : Visited fuel (.start sink input now clock) entries ⟨n + 1, .evaluate (.get object name) env, m⟩)
    (hobject : (evaluate n object env).run m = (.ok (.object o c), m₁))
    (hfield : (m₁.store.fields o).find? name.lexeme = none)
    (hrun : (evaluate (n + 1) (.get object name) env).run m = (.ok v, m')) :
    ∃ id f g frame, v = .function id f ∧ BoundTo m'.store f g frame o c ∧
      (f.isInitializer = true ↔ name.lexeme = initializerName) := by
  have hget : (evaluate (n + 1) (.get object name) env).run m = (methodOr c name o c).run m₁ := by
    refine (run_bind_ok hobject).trans ?_
    rw [run_property, hfield]
  obtain ⟨id, f, g, frame, rfl, hg, hflag, hbound⟩ := methodOr_bound (hget.symm.trans hrun)
  obtain ⟨cs, -, hpopulated, -, hc⟩ := evaluated_object (hv.makes .getObject) hobject
  refine ⟨id, f, g, frame, rfl, hbound, ?_⟩
  rw [hflag]
  exact (hpopulated.made c (List.mem_of_getElem? hc)).isInitializer hg

/-- **A method that is got from the superclass** is bound to the instance at hand, and an initializer
    exactly under their name. -/
theorem super_bound {ref : Reference}
    (hv : Visited fuel (.start sink input now clock) entries ⟨n + 1, .evaluate (.super ref name) env, m⟩)
    (hrun : (evaluate (n + 1) (.super ref name) env).run m = (.ok v, m')) :
    ∃ o d id f g frame, Receives n (.evaluate (.super ref name) env) m o d ∧ v = .function id f ∧
      BoundTo m'.store f g frame o d ∧ (f.isInitializer = true ↔ name.lexeme = initializerName) := by
  obtain ⟨k, -, program, p, hp⟩ := visited_ok (start_sound _ sink input now clock) hv
  obtain ⟨dist, near, far, hd, hnear, hfar, ⟨o, d, hthis⟩, c, hsuper⟩ := hp.super_frames
  obtain ⟨-, hreceived, hmethod⟩ :=
    superMethod_run name hd hnear hfar hp.super_lexeme hthis hsuper
  obtain ⟨id, f, g, frame, rfl, hg, hflag, hbound⟩ := methodOr_bound (hmethod.symm.trans hrun)
  obtain ⟨cs, -, hpopulated, -, -⟩ := visited_fit hv
  have hmade : c.Made _ := (hpopulated.holds _ (.inl ⟨far, _, hsuper⟩)).1
  refine ⟨o, d, id, f, g, frame, .super hd hreceived, rfl, hbound, ?_⟩
  rw [hflag]
  exact hmade.isInitializer hg

end Got

/-! ## 5. Sessions -/

/-- **Initializers yield their instance.**

    A class refuses its arguments exactly when they are not as many as the nearest initializer of its chain
    has parameters, none without one. Else the call makes an instance that was held nowhere before, and is
    the call of that initializer, bound to the instance: what it returns, if anything, is the instance.
    Every call of an initializer that returns yields the instance that some visit bound it to; `this` in
    the frame in front of its environment is that instance. A method that is got from an instance or from
    a superclass is an initializer exactly under the name of those, and bound to the instance; and no call
    changes what `this` is in a frame, so it is bound to it wherever it is called later. -/
theorem initializers_yield_their_instance (fuel : Nat) (sink : Sink) (input : Input) (now : Instant)
    (clock : Clock) (entries : List Entry) :
    let s := Session.start sink input now clock
    let H := Visited fuel s entries
    (∀ n callee paren args env m c m₁ vs m₂,
      H ⟨n + 1, .evaluate (.call callee paren args) env, m⟩ →
      (evaluate n callee env).run m = (.ok (.ofClass c), m₁) →
      (evaluateAll n args env).run m₁ = (.ok vs, m₂) →
        ((evaluate (n + 1) (.call callee paren args) env).run m
            = (.error (.error (.arity c.parameters vs.length paren.pos)), m₂) ↔
          vs.length ≠ c.parameters) ∧
        (vs.length = c.parameters → (evaluate (n + 1) (.call callee paren args) env).run m
          = (apply n (.ofClass c) vs paren).run m₂)) ∧
    (∀ n c vs paren m, H ⟨n + 1, .apply (.ofClass c) vs paren, m⟩ →
      let o := m.store.objects.size
      (∀ d, ¬ m.store.Holds (.object o d) ∧ .object o d ∉ vs) ∧
      match c.chain.findSome? (fun k => k.methods.find? initializerName) with
      | none => ∃ m', (apply (n + 1) (.ofClass c) vs paren).run m = (.ok (.object o c), m') ∧
          m'.store.objects.size = o + 1 ∧ m'.store.fields o = []
      | some g => ∃ f frame m', H ⟨n, .invoke f vs, m'⟩ ∧ f.isInitializer = true ∧
          BoundTo m'.store f g frame o c ∧ m'.store.objects.size = o + 1 ∧ m'.store.fields o = [] ∧
          (∀ v m'', (invoke n f vs).run m' = (.ok v, m'') → v = .object o c) ∧
          (apply (n + 1) (.ofClass c) vs paren).run m = (invoke n f vs).run m') ∧
    (∀ n f vs m, H ⟨n, .invoke f vs, m⟩ → f.isInitializer = true →
      ∃ u g o d frame, H u ∧ Obtains u g o d frame ∧ BoundTo m.store f g frame o d ∧
        ∀ v m', (invoke n f vs).run m = (.ok v, m') → v = .object o d) ∧
    (∀ n object name env m o c m₁ v m', H ⟨n + 1, .evaluate (.get object name) env, m⟩ →
      (evaluate n object env).run m = (.ok (.object o c), m₁) →
      (m₁.store.fields o).find? name.lexeme = none →
      (evaluate (n + 1) (.get object name) env).run m = (.ok v, m') →
        ∃ id f g frame, v = .function id f ∧ BoundTo m'.store f g frame o c ∧
          (f.isInitializer = true ↔ name.lexeme = initializerName)) ∧
    (∀ n ref name env m v m', H ⟨n + 1, .evaluate (.super ref name) env, m⟩ →
      (evaluate (n + 1) (.super ref name) env).run m = (.ok v, m') →
        ∃ o d id f g frame, Receives n (.evaluate (.super ref name) env) m o d ∧
          v = .function id f ∧ BoundTo m'.store f g frame o d ∧
          (f.isInitializer = true ↔ name.lexeme = initializerName)) ∧
    ∀ n c m, H ⟨n, c, m⟩ → ∀ frame v, (m.store.frame frame).find? thisName = some v →
      ((machineAfter n m c).store.frame frame).find? thisName = some v := by
  intro s H
  refine ⟨fun n callee paren args env m c m₁ vs m₂ hv hcallee hargs => call_ofClass hv hcallee hargs,
    fun n c vs paren m hv => ⟨fun d => ?_, apply_ofClass hv⟩, fun n f vs m hv hf => ?_,
    fun n object name env m o c m₁ v m' hv hobject hfield hrun => get_bound hv hobject hfield hrun,
    fun n ref name env m v m' hv hrun => super_bound hv hrun,
    fun n c m hv frame v h => this_machineAfter hv h⟩
  · -- addresses of instances are below the next one
    obtain ⟨cs, -, hpopulated, -, -, hvalues⟩ := visited_fit hv
    have hnew : ∀ d, cs[m.store.objects.size]? ≠ some d := fun d hd => by
      rw [hpopulated.size, List.getElem?_eq_none (Nat.le_refl _)] at hd
      cases hd
    exact ⟨fun hheld => hnew d (hpopulated.holds _ hheld), fun hmem => hnew d (hvalues _ hmem)⟩
  · obtain ⟨u, g, o, d, frame, hu, hobtains, hbound⟩ := initializer_bound hv hf
    exact ⟨u, g, o, d, frame, hu, hobtains, hbound,
      fun v m' hrun => initializer_yields hv hf hbound hrun⟩

/-- An initializer that returns early, and one that is called again through the instance. -/
theorem initializers_yield_their_instance_early :
    let source := "class A\x7binit()\x7breturn;\x7d\x7d var a=A(); a.init();"
    let s := Session.start .unlimited (.ofBytes []) 0
    let H := Visited 9 s [.file source]
    let word (w : String) (column : Nat) : Token := ⟨.identifier, w, ⟨1, column⟩⟩
    let callee : Expr := .read ⟨⟨0⟩, word "A" 32⟩
    let paren (column : Nat) : Token := ⟨.rightParen, ")", ⟨1, column⟩⟩
    ∃ c m₁ m₂ m₃ f m₄,
      (H ⟨8, .evaluate (.call callee (paren 34) []) Store.globals, m₁⟩ ∧ c.parameters = 0 ∧
        (evaluate 8 (.call callee (paren 34) []) Store.globals).run m₁
          = (apply 7 (.ofClass c) [] (paren 34)).run m₁) ∧
      (H ⟨7, .apply (.ofClass c) [] (paren 34), m₁⟩ ∧ ¬ m₁.store.Holds (.object 0 c) ∧
        (apply 7 (.ofClass c) [] (paren 34)).run m₁ = (.ok (.object 0 c), m₂)) ∧
      (H ⟨6, .invoke f [], m₃⟩ ∧ f.isInitializer = true ∧
        ∃ u g o d frame, H u ∧ Obtains u g o d frame ∧ BoundTo m₃.store f g frame o d ∧
          (invoke 6 f []).run m₃ = (.ok (.object o d), m₄)) := by
  intro source s H word callee paren
  let object : Expr := .read ⟨⟨1⟩, word "a" 37⟩
  let init : Code := .mk [] [.ret ⟨.kwReturn, "return", ⟨1, 21⟩⟩ none]
  let makes : Stmt := .varDecl (word "a" 30) (.call callee (paren 34) [])
  let again : Stmt := .expr (.call (.get object (word "init" 42)) (paren 44) [])
  let declares : Stmt := .classDecl (word "A" 7) none [.mk (word "init" 12) init]
  let g : Closure := ⟨some "init", init, [0], true⟩
  let c : Class := .mk 0 "A" none [("init", g)]
  let m (frames : List (Bindings Value)) (objects : List (Bindings Value)) (next : Identity) : Machine :=
    ⟨⟨frames.toArray, objects.toArray, next⟩, ⟨#[]⟩, .unlimited, .ofBytes [], 0, .steady⟩
  let this : Bindings Value := [("this", .object 0 c)]
  let b : Bindings Value := nativeBindings ++ [("A", .ofClass c)]
  let b' : Bindings Value := b ++ [("a", .object 0 c)]
  have haccept : s.accept source = (⟨m [nativeBindings] [] 0, 2, .empty⟩,
      some ([declares] ++ makes :: [again])) := by cbv
  have hfront : (runAll 9 [declares]).run (m [nativeBindings] [] 0) = (.ok (), m [b] [] 1) := by cbv
  have hboth : (runAll 9 ([declares, makes])).run (m [nativeBindings] [] 0)
      = (.ok (), m [b', this, []] [[]] 1) := by cbv
  have hmade := (Visited.begins (show [Entry.file source] = [] ++ _ :: [] from rfl)
    (.file haccept hfront)).makes .declared
  rw [show [declares] ++ makes :: [again] = [declares, makes] ++ again :: [] from rfl] at haccept
  have hagain := (Visited.begins (show [Entry.file source] = [] ++ _ :: [] from rfl)
    (.file haccept hboth)).makes .expression
  have hclass : (evaluate 7 callee Store.globals).run (m [b] [] 1) = (.ok (.ofClass c), m [b] [] 1) :=
    rfl
  have hargs : (evaluateAll 7 [] Store.globals).run (m [b] [] 1) = (.ok [], m [b] [] 1) := rfl
  have happly := hmade.makes (.applied hclass hargs rfl)
  let f : Closure := { g with env := [3, 0] }
  have hgot : (evaluate 7 (.get object (word "init" 42)) Store.globals).run (m [b', this, []] [[]] 1)
      = (.ok (.function 1 f), m [b', this, [], this] [[]] 2) := by cbv
  have hinvoke := (hagain.makes (.applied hgot rfl rfl)).makes .function
  have hreturns : (invoke 6 f []).run (m [b', this, [], this] [[]] 2)
      = (.ok (.object 0 c), m [b', this, [], this, []] [[]] 2) := by cbv
  obtain ⟨hcalls, happlies, hinvokes, -⟩ :=
    initializers_yield_their_instance 9 .unlimited (.ofBytes []) 0 .steady [.file source]
  obtain ⟨-, hcall⟩ := hcalls 7 callee (paren 34) [] _ _ c _ [] _ hmade hclass hargs
  obtain ⟨hnew, -⟩ := happlies 6 c [] (paren 34) _ happly
  obtain ⟨u, g', o, d, frame, hu, hobtains, hbound, hyields⟩ := hinvokes 6 f [] _ hinvoke rfl
  have happlied : (apply 7 (.ofClass c) [] (paren 34)).run (m [b] [] 1)
      = (.ok (.object 0 c), m [b, this, []] [[]] 1) := by cbv
  rw [hyields _ _ hreturns] at hreturns
  exact ⟨c, _, _, _, f, _, ⟨hmade, rfl, hcall rfl⟩, ⟨happly, (hnew c).1, happlied⟩, hinvoke, rfl, u, g',
    o, d, frame, hu, hobtains, hbound, hreturns⟩

end Lox
