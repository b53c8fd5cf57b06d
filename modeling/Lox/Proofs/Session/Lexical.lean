import Lox.Proofs.Machine.Composition
import Lox.Proofs.Session.Safety

/-!
# References mean what stands around them

Where a reference is looked up, the frame that is reached is the one that scoping meant.

* `Looks`: the calls that look a reference up, and the nodes that these references belong to.
* `Reaches`: **what such a call does with a frame**: it reads the name there, or binds it there anew.
* `lookups_are_lexical`: **the frame at the recorded distance** is that of the current activation of the
  innermost scope that declares the name in front of the reference. Without a distance no scope does, and
  it is the global frame.
-/

namespace Lox

/-! ## 1. Lookups -/

/-- The call looks up the reference of a node, in an environment. -/
inductive Looks : Call → Node → Reference → Env → Prop where
  | read {ref env} : Looks (.evaluate (.read ref) env) (.expr (.read ref)) ref env
  | assign {ref value env} :
      Looks (.evaluate (.assign ref value) env) (.expr (.assign ref value)) ref env
  | this {ref env} : Looks (.evaluate (.this ref) env) (.expr (.this ref)) ref env
  | super {ref method env} :
      Looks (.evaluate (.super ref method) env) (.expr (.super ref method)) ref env
  | superclass {name ref methods env} :
      Looks (.execute (.classDecl name (some ref) methods) env) (.expr (.read ref)) ref env

theorem Looks.env? {c : Call} {node : Node} {ref : Reference} {env : Env} (h : Looks c node ref env) :
    c.env? = some env := by
  cases h <;> rfl

theorem Looks.ne_code {c : Call} {node : Node} {ref : Reference} {env : Env}
    (h : Looks c node ref env) (code : Code) : node ≠ .code code := by
  cases h <;> exact Node.noConfusion

theorem Looks.placed {w : World} {k : Nat} {m : Machine} {v : Visit} {c : Call} {node : Node}
    {ref : Reference} {env : Env} (hl : Looks c node ref env) (hc : CallOk w k m v c) :
    Placed w k m v node env ∧ node.reference? = some ref := by
  cases hl with
  | read | assign | this | super => exact ⟨Ready.placed hc, rfl⟩
  | superclass => exact ⟨(Ready.placed hc).declared fun _ => .superclass, rfl⟩

/-! ## 2. Frames that are reached -/

/-- Binds a name anew in a frame that binds it. -/
def assignIn (f : FrameId) (t : Token) (v : Value) : Run Unit := do
  if ((← get).store.frame f).binds t.lexeme then
    modifyStore (·.defineIn f t.lexeme v)
  else
    raise (.undefinedVariable t.lexeme t.pos)

/-- What a name is bound to in a frame. -/
def lookIn (f : FrameId) (t : Token) : Run Value := do liftM (readIn (← get).store f t)

/-- The class that a name is bound to in a frame, as the superclass of another. -/
def superclassIn (f : FrameId) (t : Token) : Run (Option Class) := do
  match ← lookIn f t with
  | .ofClass c => return some c
  | _ => raise (.type "Superclass must be a class." t.pos)

/-- **A call that looks a reference up reaches a frame**, on a machine. -/
inductive Reaches (n : Nat) (m : Machine) (f : FrameId) : Call → Prop where
  /-- A variable has the value that its name is bound to there. -/
  | read {ref env}
      (h : (evaluate (n + 1) (.read ref) env).run m = (readIn m.store f ref.token, m)) :
      Reaches n m f (.evaluate (.read ref) env)
  /-- It is there that a variable is bound anew. -/
  | assign {ref value env}
      (h : (evaluate (n + 1) (.assign ref value) env).run m = (do
        let v ← evaluate n value env
        assignIn f ref.token v
        return v : Run Value).run m) :
      Reaches n m f (.evaluate (.assign ref value) env)
  /-- The instance is there. -/
  | this {ref env}
      (h : (evaluate (n + 1) (.this ref) env).run m = (readIn m.store f ref.token, m)) :
      Reaches n m f (.evaluate (.this ref) env)
  /-- The class is there, and the instance in the frame in front. -/
  | super {ref method env d near c o b} (hfar : env[d + 1]? = some f) (hnear : env[d]? = some near)
      (hsuper : readIn m.store f ref.token = .ok (.ofClass c))
      (hthis : readIn m.store near hiddenThis = .ok (.object o b))
      (h : (evaluate (n + 1) (.super ref method) env).run m = (methodOr c method o b).run m) :
      Reaches n m f (.evaluate (.super ref method) env)
  /-- The superclass of a class that is declared is there. -/
  | superclass {name ref methods env}
      (h : (execute (n + 1) (.classDecl name (some ref) methods) env).run m = (do
        modifyStore (·.define env name.lexeme .nil)
        finishClass name methods env (← superclassIn f ref.token)
        return .normal : Run Signal).run m) :
      Reaches n m f (.execute (.classDecl name (some ref) methods) env)

section

variable {w : World} {k n : Nat} {m : Machine} {v : Visit} {program : List Stmt} {p : Place}
  {node : Node} {c : Call} {ref : Reference} {env : Env} {f : FrameId}

theorem Means.assign {d : Distances} (h : Means d ref env f) (hm : m.distances = d) (u : Value) :
    (rebind ref env u).run m = (assignIn f ref.token u).run m := by
  have hassign : (assignIn f ref.token u).run m =
      (if (m.store.frame f).binds ref.token.lexeme then modifyStore (·.defineIn f ref.token.lexeme u)
        else raise (.undefinedVariable ref.token.lexeme ref.token.pos) : Run Unit).run m := rfl
  rw [h.write m u hm, hassign]
  unfold Reference.name
  by_cases hb : (m.store.frame f).binds ref.token.lexeme
  · rw [if_pos hb, if_pos hb]
    rfl
  · rw [if_neg hb, if_neg hb]
    rfl

theorem Means.look {d : Distances} (h : Means d ref env f) (hm : m.distances = d) :
    (lookUp ref env).run m = (lookIn f ref.token).run m := by
  rw [h.read m hm]
  show _ = (liftM (readIn m.store f ref.token) : Run Value).run m
  cases readIn m.store f ref.token <;> rfl

theorem Means.superclass {d : Distances} (h : Means d ref env f) (hm : m.distances = d) :
    (superclassOf (some ref) env).run m = (superclassIn f ref.token).run m :=
  run_bind_head (h.look hm)

/-- **A call reaches the frame that its reference means.** -/
theorem Looks.reaches (hl : Looks c node ref env) (hp : PlacedAt w k m v program node p env)
    (hmeans : Means m.distances ref env f)
    (hf : ∀ d, m.distances.find? ref.id = some d → env[d]? = some f) : Reaches n m f c := by
  cases hl with
  | read => exact .read (hmeans.read m rfl)
  | this => exact .this (hmeans.read m rfl)
  | @assign _ value =>
    refine .assign (run_bind_congr fun u m' hu => ?_)
    have hdistances : m'.distances = m.distances := by
      have h := Call.distances_eq n (.evaluate value env) m
      rwa [machineAfter, hu] at h
    exact run_bind_head (hmeans.assign hdistances u)
  | super =>
    obtain ⟨d, near, far, hd, hnear, hfar, ⟨o, b, hthis⟩, c, hsuper⟩ := hp.super_frames
    obtain rfl : far = f := Option.some.inj (hfar.symm.trans (hf _ hd))
    obtain ⟨-, -, hrun⟩ := superMethod_run _ hd hnear hfar hp.super_lexeme hthis hsuper
    refine .super hfar hnear ?_ ?_ hrun
    · rw [readIn, hp.super_lexeme, hsuper]
    · rw [readIn, show hiddenThis.lexeme = thisName from rfl, hthis]
  | superclass =>
    refine .superclass ?_
    show (declareClass _ _ _ _ >>= _).run m = _
    unfold declareClass
    rw [bind_assoc]
    refine run_bind_congr fun _ m' hdefine => ?_
    rw [bind_assoc]
    exact run_bind_head (hmeans.superclass (by cases hdefine; rfl))

end

/-! ## 3. Lexical scoping -/

/-- **Every reference that is looked up in a session** belongs to a place of a program that the front end
    let through, and the environment is that of the current activations of the layers of the place; there
    is no other. The recorded distance is that of the innermost layer that has the name there, and the
    frame of its activation is reached. Where none is recorded, no layer has the name, and the global
    frame is reached. What lies outside a function around the place is what the function was made with. -/
theorem lookups_are_lexical (fuel : Nat) (sink : Sink) (input : Input) (now : Instant) (clock : Clock)
    (entries : List Entry) (n : Nat) (c : Call) (m : Machine) (node : Node) (ref : Reference) (env : Env)
    (hv : Visited fuel (.start sink input now clock) entries ⟨n + 1, c, m⟩) (hl : Looks c node ref env) :
    let H := Visited fuel (.start sink input now clock) entries
    let v : Visit := ⟨n + 1, c, m⟩
    let distance := m.distances.find? ref.id
    ∃ program p, Accepted fuel (.start sink input now clock) entries program ∧ Occurs program node p ∧
      (∀ q, Occurs program node q → depthIn q.layers ref.name = distance) ∧
      Activated H v env p.layers ∧ (∀ env', Activated H v env' p.layers → env' = env) ∧
      (∀ inner code names outer, p.layers = inner ++ ⟨.call code, names⟩ :: outer →
        ∃ f u, Captured H f u ∧ f.code = code ∧ env.drop (inner.length + 1) = f.env ∧
          Activated H u f.env outer) ∧
      match distance with
      | some d => ∃ inner layer outer frame u, p.layers = inner ++ layer :: outer ∧
          inner.length = d ∧ ref.name ∈ layer.names ∧ (∀ l ∈ inner, ref.name ∉ l.names) ∧
          env[d]? = some frame ∧ Activated H u (env.drop d) (layer :: outer) ∧ Reaches n m frame c
      | none => (∀ l ∈ p.layers, ref.name ∉ l.names) ∧ Reaches n m Store.globalFrame c := by
  intro H v distance
  obtain ⟨k, -, hc⟩ := visited_ok (start_sound _ sink input now clock) hv
  obtain ⟨⟨program, p, hp⟩, href⟩ := hl.placed hc
  have hfits := fun q hq => (hp.loaded.fits node q ref hq href).symm
  have honly : ∀ env', Activated H v env' p.layers → env' = env := fun _ =>
    hp.activated.eq_env hl.env? (hp.occurs.runs hl.ne_code)
  have hmade : ∀ inner code names outer, p.layers = inner ++ ⟨.call code, names⟩ :: outer →
      ∃ f u, Captured H f u ∧ f.code = code ∧ env.drop (inner.length + 1) = f.env ∧
        Activated H u f.env outer := by
    intro inner code names outer hlayers
    have hactivated := hp.activated
    rw [hlayers] at hactivated
    exact hactivated.function
  refine ⟨program, p, hp.accepted, hp.occurs, hfits, hp.activated, honly, hmade, ?_⟩
  have hdepth : depthIn p.layers ref.name = distance := hfits p hp.occurs
  cases hd : distance with
  | some d =>
    obtain ⟨inner, layer, outer, hlayers, rfl, hname, hinner⟩ :=
      depthIn_eq_some (hdepth.trans hd)
    have hlt := (hp.distance_lt href hd).2
    have hframe := List.getElem?_eq_getElem hlt
    have hactivated := hp.activated
    rw [hlayers] at hactivated
    obtain ⟨u, hu⟩ := hactivated.drop
    have hreaches := hl.reaches (n := n) hp (means_at hd hframe) fun d' hd' => by
      rw [← hframe, Option.some.inj (hd'.symm.trans hd)]
    exact ⟨inner, layer, outer, env[inner.length], u, hlayers, rfl, hname, hinner, hframe, hu, hreaches⟩
  | none =>
    have hreaches := hl.reaches (n := n) hp (means_global hd) fun d' hd' => nomatch hd'.symm.trans hd
    exact ⟨depthIn_eq_none.mp (hdepth.trans hd), hreaches⟩

/-- A function reads a variable of the activation that made it, while another activation of the same
    function is under way. -/
theorem lookups_are_lexical_recursion :
    let source := "fun f(x) \x7b if (x) f(nil); fun g() \x7b x; \x7d g(); \x7d f(true);"
    let H := Visited 20 (.start .unlimited (.ofBytes []) 0) [.line source]
    let ref : Reference := ⟨⟨2⟩, ⟨.identifier, "x", ⟨1, 37⟩⟩⟩
    let read : Call := .evaluate (.read ref) [3, 2, 0]
    ∃ m layers, H ⟨2, read, m⟩ ∧ m.distances.find? ref.id = some 1 ∧
      Activated H ⟨2, read, m⟩ [3, 2, 0] layers ∧
      (∀ env, Activated H ⟨2, read, m⟩ env layers → env = [3, 2, 0]) ∧ Reaches 1 m 2 read := by
  intro source H ref read
  let word (w : String) (column : Nat) : Token := ⟨.identifier, w, ⟨1, column⟩⟩
  let call (id : Nat) (w : String) (column close : Nat) (args : List Expr) : Expr :=
    .call (.read ⟨⟨id⟩, word w column⟩) ⟨.rightParen, ")", ⟨1, close⟩⟩ args
  let again : Stmt := .branch (.read ⟨⟨0⟩, word "x" 16⟩) (.expr (call 1 "f" 19 24 [.literal .nil])) none
  let g : Code := .mk [] [.expr (.read ref)]
  let f : Code :=
    .mk [word "x" 7] [again, .funDecl (.mk (word "g" 31) g), .expr (call 3 "g" 42 44 [])]
  let program : List Stmt :=
    [.funDecl (.mk (word "f" 5) f)] ++ .expr (call 4 "f" 49 55 [.literal (.bool true)]) :: []
  let m (frames : Array (Bindings Value)) (ids : Nat) : Machine :=
    ⟨⟨frames, #[], ids⟩, ⟨#[some 0, none, some 1, some 0]⟩, .unlimited, .ofBytes [], 0, .steady⟩
  let globals : Bindings Value := nativeBindings ++ [("f", .function 0 ⟨some "f", f, [0], false⟩)]
  have haccept : (Session.start .unlimited (.ofBytes []) 0).accept source
      = (⟨m #[nativeBindings] 0, 5, .empty⟩, some program) := by cbv
  have hcall : H ⟨20, .evaluate (call 4 "f" 49 55 [.literal (.bool true)]) Store.globals,
      m #[globals] 1⟩ :=
    .begins (show [Entry.line source] = [] ++ _ :: [] from rfl) (.line haccept rfl)
  -- the first call, and in it the second
  have houter := ((hcall.makes (.applied rfl rfl rfl)).makes .function).makes (.body rfl)
  have hagain := ((houter.makes .firstStatement).makes (.branchYes rfl rfl)).makes .expression
  have hinner : H ⟨11, .executeAll f.body [2, 0], m #[globals, [("x", .bool true)], [("x", .nil)]] 1⟩ :=
    ((hagain.makes (.applied rfl rfl rfl)).makes .function).makes (.body rfl)
  -- the second one declares a function and calls it
  have hlast : H ⟨9, .executeAll [.expr (call 3 "g" 42 44 [])] [2, 0],
      m #[globals, [("x", .bool true)],
        [("x", .nil), ("g", .function 1 ⟨some "g", g, [2, 0], false⟩)]] 2⟩ :=
    (hinner.makes (.otherStatements rfl)).makes (.otherStatements rfl)
  have hg := ((hlast.makes .firstStatement).makes .expression).makes (.applied rfl rfl rfl)
  have hread := (((hg.makes .function).makes (.body rfl)).makes .firstStatement).makes .expression
  obtain ⟨-, p, -, -, -, hactivated, honly, -, -, -, -, frame, -, -, -, -, -, hframe, -, hreaches⟩ :=
    lookups_are_lexical 20 .unlimited (.ofBytes []) 0 .steady [.line source] _ _ _ _ ref _ hread .read
  cases hframe
  exact ⟨_, p.layers, hread, rfl, hactivated, honly, hreaches⟩

end Lox
