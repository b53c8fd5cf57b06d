import Lox.Proofs.Session.Safety

/-!
# Variables that are not bound yet

A reference with a distance finds its name in the frame at that distance, but for one case: it stands
in the initializer of its own variable, so that the variable is not made yet.

* `Filled.awaits`: a frame that lacks a name of its layer belongs to a variable that is being made.
* `Misses`: a variable is read or assigned, and is undefined.
* `misses_in_initializer`: **where a reference with a distance misses**, it stands in a function within
  the initializer of its own variable, or is an assignment there.
* `assignment_misses`: such an assignment is let through outside all functions, and misses.
-/

namespace Lox

variable {w : World} {k d : Nat} {m m' : Machine} {v : Visit}

/-! ## 1. Frames that lack a name -/

theorem Filled.awaits {s : Store} {waits : List Layer → String → Prop} {env : Env}
    {layers : List Layer} {name : String} {f : FrameId} (h : Filled s waits env layers)
    (hd : depthIn layers name = some d) (hf : env[d]? = some f)
    (hb : (s.frame f).binds name = false) : waits (layers.drop d) name := by
  obtain ⟨inner, l, outer, rfl, rfl, hname, -⟩ := depthIn_eq_some hd
  rw [List.drop_left]
  refine ((h.drop hf).2 name hname).resolve_left fun hbinds => ?_
  rw [hb] at hbinds
  cases hbinds

section

variable {program : List Stmt} {node : Node} {p : Place} {env : Env} {ref : Reference}

/-- **A reference that means a frame without its name** stands in the initializer of its variable. -/
theorem ReadyAt.awaits (hp : ReadyAt w k m v program node p env)
    (href : node.reference? = some ref) (hd : m.distances.find? ref.id = some d)
    (hb : ∀ f, Means m.distances ref env f → (m.store.frame f).binds ref.name = false) :
    depthIn p.layers ref.name = some d ∧ Awaits program node p (p.layers.drop d) ref.name := by
  have hdepth : depthIn p.layers ref.name = some d :=
    (hp.loaded.fits node p ref hp.occurs href).symm.trans hd
  have hframe := List.getElem?_eq_getElem (hp.distance_lt href hd).2
  exact ⟨hdepth, hp.filled.awaits hdepth hframe (hb _ (means_at hd hframe))⟩

/-- The reference to a superclass is looked up when the name of the class is defined. -/
theorem ReadyAt.superclass {name : Token} {methods : List FunDecl} (h : Good w k m)
    (hp : ReadyAt w k m v program (.stmt (.classDecl name (some ref) methods)) p env) :
    ReadyAt w k { m with store := m.store.define env name.lexeme .nil } v program
      (.expr (.read ref)) (p.declare name.lexeme) env := by
  have hshaped : (Stmt.classDecl name (some ref) methods).Shaped Token.Spelled :=
    hp.occurs.shaped hp.loaded.shaped
  have hafter : After w k m { m with store := m.store.define env name.lexeme .nil } :=
    .define h hshaped.1.plain fun _ => trivial
  have hfilled := hp.filled_declare hafter.keeps (.define env name.lexeme .nil (.refl _))
  exact {
    toPlacedAt := (hp.later hafter.later).toPlacedAt.inside .superclass
      (p.declare_regions name.lexeme)
    filled := hfilled.imp fun _ _ hw => hw.inside .superclass }

end

/-! ## 2. Undefined variables -/

theorem Means.unbound_of_read {ref : Reference} {env : Env} {f : FrameId} {e : Stop}
    (hm : Means m.distances ref env f) (h : (lookUp ref env).run m = (.error e, m')) :
    (m.store.frame f).binds ref.name = false := by
  have hread : (readIn m.store f ref.token, m) = (.error e, m') := (hm.read m rfl).symm.trans h
  unfold readIn at hread
  cases hfind : (m.store.frame f).find? ref.name with
  | none => simp [Bindings.binds, hfind]
  | some u =>
    rw [show (m.store.frame f).find? ref.token.lexeme = some u from hfind] at hread
    cases hread

theorem Means.unbound_of_write {ref : Reference} {env : Env} {f : FrameId} {e : Stop} {u : Value}
    (hm : Means m.distances ref env f) (h : (rebind ref env u).run m = (.error e, m')) :
    (m.store.frame f).binds ref.name = false := by
  rw [hm.write m u rfl] at h
  by_contra hb
  rw [if_pos (Bool.not_eq_false _ ▸ hb)] at h
  cases h

/-- **A variable is read or assigned and is undefined**, at a visit. The superclass of a class is read
    too. An assignment misses after its value was found. -/
inductive Misses : Visit → Node → Reference → Prop where
  | read {n ref env m name pos m'}
      (h : (evaluate n (.read ref) env).run m
        = (.error (.error (.undefinedVariable name pos)), m')) :
      Misses ⟨n, .evaluate (.read ref) env, m⟩ (.expr (.read ref)) ref
  | assign {n ref value env m u m₁ name pos m'}
      (hvalue : (evaluate n value env).run m = (.ok u, m₁))
      (h : (evaluate (n + 1) (.assign ref value) env).run m
        = (.error (.error (.undefinedVariable name pos)), m')) :
      Misses ⟨n + 1, .evaluate (.assign ref value) env, m⟩ (.expr (.assign ref value)) ref
  | superclass {n cls ref methods env m name pos m'}
      (h : (superclassOf (some ref) env).run { m with store := m.store.define env cls.lexeme .nil }
        = (.error (.error (.undefinedVariable name pos)), m')) :
      Misses ⟨n, .execute (.classDecl cls (some ref) methods) env, m⟩ (.expr (.read ref)) ref

/-- Where the value is found, it is the assignment that fails. -/
theorem rebind_of_assign {n : Nat} {ref : Reference} {value : Expr} {env : Env} {u : Value}
    {m₁ : Machine} {e : Stop} (hvalue : (evaluate n value env).run m = (.ok u, m₁))
    (h : (evaluate (n + 1) (.assign ref value) env).run m = (.error e, m')) :
    (rebind ref env u).run m₁ = (.error e, m') := by
  have hrun : (do rebind ref env u; return u : Run Value).run m₁ = (.error e, m') :=
    (run_bind_ok hvalue).symm.trans h
  rcases error_of_run_bind hrun with hrebind | ⟨_, _, _, hreturn⟩
  · exact hrebind
  · cases hreturn

/-- Where a superclass is undefined, it is the lookup that fails. -/
theorem lookUp_of_superclassOf {ref : Reference} {env : Env} {name : String} {pos : Position}
    (h : (superclassOf (some ref) env).run m
      = (.error (.error (.undefinedVariable name pos)), m')) :
    (lookUp ref env).run m = (.error (.error (.undefinedVariable name pos)), m') := by
  rcases error_of_run_bind h with hlook | ⟨u, m₁, _, hclass⟩
  · exact hlook
  · cases u <;> cases hclass

/-! ## 3. Initializers -/

/-- **Where a reference misses**, it can be evaluated, and its variable is awaited. -/
theorem Misses.awaits (hclosed : w.calls.Closed) (hv : w.calls v) (h : Good w k v.machine)
    (hc : CallOk w k v.machine v v.call) {node : Node} {ref : Reference} (hm : Misses v node ref)
    (hd : v.machine.distances.find? ref.id = some d) :
    ∃ program p, w.programs program ∧ ObeysRules program ∧ depthIn p.layers ref.name = some d ∧
      Awaits program node p (p.layers.drop d) ref.name := by
  cases hm with
  | @read n ref env m name pos m' hrun =>
    obtain ⟨program, p, hp⟩ := hc
    refine ⟨program, p, hp.accepted, hp.loaded.rules, hp.awaits rfl hd fun f hf => ?_⟩
    cases n with
    | zero => cases hrun
    | succ n => exact hf.unbound_of_read hrun
  | @assign n ref value env m u m₁ name pos m' hvalue hrun =>
    -- the environment still fits when the value is found
    obtain ⟨program, p, hp⟩ := hc
    have hmade : Makes n (.evaluate (.assign ref value) env) m (.evaluate value env) m := .assigned
    obtain ⟨-, hready⟩ := hmade.ok (safeAt hclosed n) hclosed rfl hv h ⟨program, p, hp⟩
    have hready := hready.made hmade
    have hsafe := safeAt hclosed n _ m (hclosed _ _ _ _ _ hv hmade) h hready
    have hafter := (hsafe.of_run hvalue).1
    have hp₁ := hp.later hafter.later
    refine ⟨program, p, hp.accepted, hp.loaded.rules, hp₁.awaits rfl ?_ fun f hf => ?_⟩
    · rw [hafter.distances]
      exact hd
    · exact hf.unbound_of_write (rebind_of_assign hvalue hrun)
  | superclass hrun =>
    obtain ⟨program, p, hp⟩ := hc
    refine ⟨program, _, hp.accepted, hp.loaded.rules, (hp.superclass h).awaits rfl hd fun f hf => ?_⟩
    exact hf.unbound_of_read (lookUp_of_superclassOf hrun)

/-- **A reference with a distance is bound when it is evaluated**, in all sessions, unless it stands in
    the initializer of the very variable that it refers to. There it stands in a function, or it is an
    assignment: scoping refuses a variable that is read in its own initializer outside the functions in
    it, and does not look at assignments. -/
theorem misses_in_initializer (fuel : Nat) (sink : Sink) (input : Input) (now : Instant)
    (clock : Clock) (entries : List Entry) :
    (∀ v node ref d, Visited fuel (.start sink input now clock) entries v → Misses v node ref →
      v.machine.distances.find? ref.id = some d →
      ∃ program p name init q, Accepted fuel (.start sink input now clock) entries program ∧
        Occurs program node p ∧ depthIn p.layers ref.name = some d ∧
        Initializes program name init q node p ∧ name.lexeme = ref.name ∧
        q.layers.map Layer.region = (p.layers.drop d).map Layer.region ∧
        (ThroughFunction (.expr init) (q.declare name.lexeme) node p ∨
          ∃ value, node = .expr (.assign ref value))) ∧
    ∀ program name init q, Accepted fuel (.start sink input now clock) entries program →
      Occurs program (.stmt (.varDecl name init)) q → q.layers ≠ [] → name.lexeme ∉ init.reads := by
  have hsound := start_sound (worldOf fuel (.start sink input now clock) entries) sink input now clock
  refine ⟨fun v node ref d hv hm hd => ?_, fun program name init q ha ho hq => ?_⟩
  · obtain ⟨k, hgood, hc⟩ := visited_ok hsound hv
    obtain ⟨program, p, haccepted, hrules, hdepth, name, init, q, hinit, hname, hregions⟩ :=
      hm.awaits (worldOf_closed fuel _ entries) hv hgood hc hd
    refine ⟨program, p, name, init, q, haccepted, hinit.node_occurs, hdepth, hinit, hname,
      hregions, ?_⟩
    cases hm with
    | assign => exact .inr ⟨_, rfl⟩
    | read | superclass =>
      -- the scope of the variable is not the global one
      have hq : q.layers ≠ [] := by
        intro hnil
        obtain ⟨inner, l, outer, hlayers, rfl, -⟩ := depthIn_eq_some hdepth
        rw [hnil, hlayers, List.drop_left] at hregions
        cases hregions
      exact .inl (hinit.reads_through_function hrules hq hname)
  · obtain ⟨_, _, hloaded⟩ := Accepted.loaded hsound ha
    exact hloaded.rules.initializers name init q ho hq

/-- A function that is called where its variable is made reads the variable too early. -/
theorem misses_in_initializer_function :
    let source := "\x7b var a = fun() \x7b a; \x7d(); \x7d"
    let s := Session.start .unlimited (.ofBytes []) 0
    let ref : Reference := ⟨⟨0⟩, ⟨.identifier, "a", ⟨1, 19⟩⟩⟩
    ∃ v, Visited 12 s [.line source] v ∧ Misses v (.expr (.read ref)) ref ∧
      v.machine.distances.find? ref.id = some 1 ∧
      ∃ program p name init q, Accepted 12 s [.line source] program ∧
        Initializes program name init q (.expr (.read ref)) p ∧ name.lexeme = "a" ∧
        ThroughFunction (.expr init) (q.declare name.lexeme) (.expr (.read ref)) p := by
  intro source s ref
  let code : Code := .mk [] [.expr (.read ref)]
  let call : Expr := .call (.lambda code) ⟨.rightParen, ")", ⟨1, 24⟩⟩ []
  let body : List Stmt := [.varDecl ⟨.identifier, "a", ⟨1, 7⟩⟩ call]
  let m : Machine :=
    ⟨⟨#[nativeBindings], #[], 0⟩, ⟨#[some 1]⟩, .unlimited, .ofBytes [], 0, .steady⟩
  have haccept : s.accept source = (⟨m, 1, .empty⟩, some ([] ++ .block body :: [])) := by cbv
  have hblock : Visited 12 s [.line source] ⟨12, .execute (.block body) Store.globals, m⟩ :=
    .begins (show _ = [] ++ _ :: [] from rfl) (.line haccept rfl)
  have hinit := ((hblock.makes (.block rfl)).makes .firstStatement).makes .declared
  have hcall := hinit.makes (.applied rfl rfl rfl)
  have hread := (((hcall.makes .function).makes (.body rfl)).makes .firstStatement).makes .expression
  obtain ⟨program, p, name, init, q, haccepted, -, -, hinitializes, hname, -, hwhere⟩ :=
    (misses_in_initializer 12 .unlimited (.ofBytes []) 0 .steady [.line source]).1 _ _ ref 1 hread (.read rfl) rfl
  refine ⟨_, hread, .read rfl, rfl, program, p, name, init, q, haccepted, hinitializes, hname, ?_⟩
  rcases hwhere with hfunction | ⟨value, hassign⟩
  · exact hfunction
  · cases hassign

/-- No function lies beneath an assignment of a literal. -/
theorem Beneath.no_function {ref : Reference} {l : Literal} {p q : Place} {code : Code}
    (h : Beneath (.expr (.assign ref (.literal l))) p (.code code) q) : False := by
  have hparts : ∀ node q, Beneath (.expr (.assign ref (.literal l))) p node q →
      node = .expr (.assign ref (.literal l)) ∨ node = .expr (.literal l) := by
    intro node q hb
    induction hb with
    | refl => exact .inl rfl
    | step _ hi ih =>
      rcases ih with rfl | rfl
      · cases hi
        exact .inr rfl
      · cases hi
  rcases hparts _ _ h with heq | heq <;> cases heq

/-- **An assignment in the initializer of its own variable is let through**, outside all functions, and
    misses. -/
theorem assignment_misses :
    let source := "\x7b var a = a = nil; \x7d"
    let s := Session.start .unlimited (.ofBytes []) 0
    let ref : Reference := ⟨⟨1⟩, ⟨.identifier, "a", ⟨1, 11⟩⟩⟩
    let assign : Expr := .assign ref (.literal .nil)
    ∃ program p q name v, Accepted 12 s [.line source] program ∧
      Initializes program name assign q (.expr assign) p ∧ name.lexeme = ref.name ∧
      ¬ ThroughFunction (.expr assign) (q.declare name.lexeme) (.expr assign) p ∧
      Visited 12 s [.line source] v ∧ Misses v (.expr assign) ref ∧
      v.machine.distances.find? ref.id = some 0 := by
  intro source s ref assign
  let name : Token := ⟨.identifier, "a", ⟨1, 7⟩⟩
  let body : List Stmt := [.varDecl name assign]
  let q : Place := Place.top.push (.block (.block body)) []
  let m : Machine :=
    ⟨⟨#[nativeBindings], #[], 0⟩, ⟨#[none, some 0]⟩, .unlimited, .ofBytes [], 0, .steady⟩
  have haccept : s.accept source = (⟨m, 2, .empty⟩, some ([] ++ .block body :: [])) := by cbv
  have hblock : Visited 12 s [.line source] ⟨12, .execute (.block body) Store.globals, m⟩ :=
    .begins (show _ = [] ++ _ :: [] from rfl) (.line haccept rfl)
  have hinit := ((hblock.makes (.block rfl)).makes .firstStatement).makes .declared
  have hoccurs : Occurs [.block body] (.stmt (.varDecl name assign)) q :=
    .inside (.top List.mem_cons_self) (@Inside.block _ [] _ [])
  refine ⟨_, _, q, name, _, ⟨[], _, [], source, _, rfl, rfl, haccept⟩, ⟨hoccurs, .refl⟩, rfl, ?_, hinit,
    .assign rfl rfl, rfl⟩
  rintro ⟨code, r, hcode, -⟩
  exact hcode.no_function

end Lox
