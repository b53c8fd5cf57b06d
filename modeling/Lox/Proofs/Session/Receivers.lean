import Lox.Proofs.Session.Safety

/-!
# What `this` and `super` mean

`this` and `super` go by where code stands, and by the instance through which its method was obtained.
What variables and fields hold when they are evaluated makes no difference to them.

* `Class.chain`: a class and its superclasses. A method is looked up along it (`Class.method?_chain`).
* `InMethod`: **the environment of code in a method** of a class, with the instance through which the
  method was obtained. Functions, blocks and loops may stand between the code and the method.
* `this_and_super_stay`: `this` is that instance, and `super` looks a method up from the class that the
  declaration found as superclass when it was executed, and binds it to that instance.
-/

namespace Lox

/-! ## 1. Looking along a class -/

/-- A class and its superclasses, the nearest first. -/
def Class.chain : Class → List Class
  | mk id name none methods => [mk id name none methods]
  | mk id name (some c) methods => mk id name (some c) methods :: c.chain

/-- **A method** is that of the nearest class of the chain that declares it. -/
theorem Class.method?_chain (c : Class) (n : String) :
    c.method? n = c.chain.findSome? fun k => k.methods.find? n := by
  fun_induction Class.chain c with
  | case1 id name methods => rw [method?, List.findSome?_singleton, Class.methods]
  | case2 id name c methods ih =>
    rw [method?, List.findSome?_cons, Class.methods, ih]
    cases methods.find? n <;> rfl

/-! ## 2. Code in a method -/

/-- **An environment of code in a method** of the class that `decl` declares, and in no class further
    in. The method `g` was obtained through an instance, and the frame that was opened for the instance is
    the one that the method was called with. -/
inductive InMethod (H : History) (v : Visit) (program : List Stmt) (node : Node) (env : Env)
    (decl : Stmt) (g : Closure) (o : ObjectId) (d : Class) : Prop where
  | intro {p inner names names' outer u frame} (hp : Occurs program node p)
      (hlayers : p.layers = inner ++ ⟨.call g.code, names⟩ :: ⟨.this decl, names'⟩ :: outer)
      (hinner : ∀ l ∈ inner, l.region.Plain) (hmethod : decl.hasMethod g.code)
      (hactivated : Activated H v env p.layers) (hu : H u) (hobtains : Obtains u g o d frame)
      (henv : env.drop (inner.length + 1) = frame :: g.env)

section

variable {w : World} {k : Nat} {m : Machine} {v : Visit} {program : List Stmt} {p : Place} {e : Expr}
  {env : Env} {decl : Stmt} {names : List String} {inner outer : List Layer}

/-- **In a class** the environment is that of code in a method. The frame of `this` binds it to the
    instance through which the method was obtained. -/
theorem PlacedAt.inMethod (hp : PlacedAt w k m v program (.expr e) p env)
    (hlayers : p.layers = inner ++ ⟨.this decl, names⟩ :: outer)
    (hinner : ∀ l ∈ inner, l.region.Plain) :
    ∃ g o d frame, InMethod w.calls v program (.expr e) env decl g o d ∧
      env.drop inner.length = frame :: g.env ∧
      (m.store.frame frame).find? thisName = some (.object o d) := by
  obtain ⟨hmethodical, hfits⟩ := hp.occurs.methodical
  rw [hlayers] at hmethodical
  have hne : inner ≠ [] := by
    rintro rfl
    exact hfits decl ⟨_, _, hlayers⟩
  obtain ⟨front, code, names', rfl, hmethod⟩ := hmethodical.front hne
  rw [List.append_assoc, List.singleton_append] at hlayers
  have hbound := hp.bound
  rw [hlayers] at hbound
  have hcall := hbound.drop
  rw [List.length_append, List.length_singleton, ← List.drop_drop]
  cases hdrop : env.drop front.length with
  | nil =>
    rw [hdrop] at hcall
    cases hcall
  | cons f rest =>
    rw [hdrop] at hcall
    cases hcall with
    | layer hthrough _ =>
      obtain ⟨u, g, o, d, frame, hu, hobtains, rfl, rfl, hthis⟩ := hthrough decl ⟨_, _, rfl⟩
      refine ⟨g, o, d, frame, ?_, rfl, hthis⟩
      refine .intro hp.occurs hlayers (fun l hl => hinner l (List.mem_append_left _ hl)) hmethod
        hp.activated hu hobtains ?_
      rw [← List.drop_drop, hdrop]
      rfl

theorem getElem?_of_drop {i : Nat} {f : FrameId} {rest : Env} (h : env.drop i = f :: rest) :
    env[i]? = some f := by
  rw [← Nat.add_zero i, ← List.getElem?_drop, h]
  rfl

/-- The frame of `super` lies behind that of `this`, and binds it to the class that the declaration
    found. -/
theorem PlacedAt.inherits {names' : List String} {g : Closure} {frame : FrameId}
    (hp : PlacedAt w k m v program (.expr e) p env)
    (hlayers : p.layers = inner ++ ⟨.this decl, names⟩ :: ⟨.super decl, names'⟩ :: outer)
    (hdrop : env.drop inner.length = frame :: g.env) :
    ∃ u c f env', w.calls u ∧ Inherits u decl env' c f ∧ g.env = f :: env' ∧
      (m.store.frame f).find? superName = some (.ofClass c) := by
  have hbound := hp.bound
  rw [hlayers] at hbound
  have hthis := hbound.drop
  rw [hdrop] at hthis
  cases hthis with
  | layer _ hrest =>
    cases hg : g.env with
    | nil =>
      rw [hg] at hrest
      cases hrest
    | cons f env' =>
      rw [hg] at hrest
      cases hrest with
      | layer hsuper _ =>
        obtain ⟨u, c, hu, hinherits, hfind⟩ := hsuper
        exact ⟨u, c, f, env', hu, hinherits, rfl, hfind⟩

end

/-! ## 3. What they mean -/

/-- A method of a class, bound to an instance: a function with a frame for the instance. -/
theorem methodOr_run (c : Class) (name : Token) (o : ObjectId) (d : Class) (m : Machine) :
    match c.chain.findSome? (fun k => k.methods.find? name.lexeme) with
    | some f => ∃ id frame m', (methodOr c name o d).run m
          = (.ok (.function id { f with env := frame :: f.env }), m') ∧
        m'.store.frame frame = [(thisName, .object o d)]
    | none => (methodOr c name o d).run m
        = (.error (.error (.undefinedProperty name.lexeme name.pos)), m) := by
  rw [← Class.method?_chain]
  unfold methodOr
  cases hf : c.method? name.lexeme with
  | none => rfl
  | some f =>
    refine ⟨_, m.store.frames.size, _, rfl, ?_⟩
    show ({ m.store with frames := m.store.frames.push _ } : Store).frame _ = _
    rw [Store.frame_push, if_pos rfl]

/-- **`this` and `super` stay what they are.** Wherever `this` is evaluated in a session, it stands in a
    method of a class, and is the instance through which that method was obtained. Wherever `super` is
    evaluated, the innermost class around it was declared with a superclass, which was found when the
    declaration was executed. The method is looked up from that class on. If a class on its chain
    declares it, the result is the method bound to the instance, and else there is no such property. -/
theorem this_and_super_stay (fuel : Nat) (sink : Sink) (input : Input) (now : Instant) (clock : Clock)
    (entries : List Entry) :
    let s := Session.start sink input now clock
    let H := Visited fuel s entries
    (∀ n ref env m, H ⟨n + 1, .evaluate (.this ref) env, m⟩ →
      ∃ program decl g o d, Accepted fuel s entries program ∧
        InMethod H ⟨n + 1, .evaluate (.this ref) env, m⟩ program (.expr (.this ref)) env decl g o d ∧
        (evaluate (n + 1) (.this ref) env).run m = (.ok (.object o d), m)) ∧
    ∀ n ref name env m, H ⟨n + 1, .evaluate (.super ref name) env, m⟩ →
      ∃ program decl g o d u c far outer, Accepted fuel s entries program ∧
        InMethod H ⟨n + 1, .evaluate (.super ref name) env, m⟩ program (.expr (.super ref name)) env
          decl g o d ∧
        H u ∧ Inherits u decl outer c far ∧ g.env = far :: outer ∧
        match c.chain.findSome? (fun k => k.methods.find? name.lexeme) with
        | some f => ∃ id near m', (evaluate (n + 1) (.super ref name) env).run m
              = (.ok (.function id { f with env := near :: f.env }), m') ∧
            m'.store.frame near = [(thisName, .object o d)]
        | none => (evaluate (n + 1) (.super ref name) env).run m
            = (.error (.error (.undefinedProperty name.lexeme name.pos)), m) := by
  intro s H
  refine ⟨fun n ref env m hv => ?_, fun n ref name env m hv => ?_⟩
  · obtain ⟨k, -, program, p, hp⟩ := visited_ok (start_sound _ sink input now clock) hv
    have hregular := hp.occurs.regular hp.loaded.shaped
    obtain ⟨inner, decl, names, outer, hlayers, hdepth, hinner⟩ :=
      depthIn_this (hregular.inside (hp.loaded.rules.this ref p hp.occurs)) hregular.named
    obtain ⟨g, o, d, frame, hmethod, hdrop, hthis⟩ := hp.inMethod hlayers hinner
    refine ⟨program, decl, g, o, d, hp.accepted, hmethod, ?_⟩
    have hshaped : ref.token.Is .kwThis Token.Spelled := hp.occurs.shaped hp.loaded.shaped
    have hname : ref.token.lexeme = thisName := hshaped.2.this hshaped.1
    have hd : m.distances.find? ref.id = some inner.length := by
      rw [hp.loaded.fits _ p ref hp.occurs rfl, ← hdepth]
      exact congrArg _ hname
    show (lookUp ref env).run m = _
    rw [lookUp_at hd, readAt_run (getElem?_of_drop hdrop), readIn, hname, hthis]
  · obtain ⟨k, -, program, p, hp⟩ := visited_ok (start_sound _ sink input now clock) hv
    have hregular := hp.occurs.regular hp.loaded.shaped
    obtain ⟨inner, decl, names, names', outer, hlayers, hdepth, hinner⟩ :=
      depthIn_methods (hregular.derived (hp.loaded.rules.super ref name p hp.occurs)) hregular.named
    obtain ⟨g, o, d, frame, hmethod, hdrop, hthis⟩ := hp.inMethod hlayers hinner
    obtain ⟨u, c, far, env', hu, hinherits, henv, hsuper⟩ := hp.inherits hlayers hdrop
    refine ⟨program, decl, g, o, d, u, c, far, env', hp.accepted, hmethod, hu, hinherits, henv, ?_⟩
    have hd : m.distances.find? ref.id = some (inner.length + 1) := by
      rw [hp.loaded.fits _ p ref hp.occurs rfl, ← hdepth]
      exact congrArg _ hp.super_lexeme
    have hbehind : env.drop (inner.length + 1) = far :: env' := by
      rw [← List.drop_drop, hdrop, henv]
      rfl
    have hfar : env[inner.length + 1]? = some far := getElem?_of_drop hbehind
    obtain ⟨-, -, hrun⟩ := superMethod_run name hd (getElem?_of_drop hdrop) hfar
      hp.super_lexeme hthis hsuper
    rw [show (evaluate (n + 1) (.super ref name) env).run m = _ from hrun]
    exact methodOr_run c name o d m

set_option maxRecDepth 2000 in
/-- An initializer that names its instance, and reaches into the superclass. -/
theorem this_and_super_stay_initializer :
    let source := "class A\x7bm()\x7b\x7d\x7d class B<A\x7binit()\x7bthis; super.m;\x7d\x7d B();"
    let s := Session.start .unlimited (.ofBytes []) 0
    let H := Visited 12 s [.line source]
    let this : Reference := ⟨⟨1⟩, ⟨.kwThis, "this", ⟨1, 36⟩⟩⟩
    let super : Reference := ⟨⟨2⟩, ⟨.kwSuper, "super", ⟨1, 43⟩⟩⟩
    let name : Token := ⟨.identifier, "m", ⟨1, 45⟩⟩
    ∃ env m,
      (H ⟨7, .evaluate (.this this) env, m⟩ ∧
        ∃ program decl g o d, Accepted 12 s [.line source] program ∧
          InMethod H ⟨7, .evaluate (.this this) env, m⟩ program (.expr (.this this)) env decl g o d ∧
          (evaluate 7 (.this this) env).run m = (.ok (.object o d), m)) ∧
      H ⟨6, .evaluate (.super super name) env, m⟩ ∧
        ∃ program decl g o d u c far outer, Accepted 12 s [.line source] program ∧
          InMethod H ⟨6, .evaluate (.super super name) env, m⟩ program (.expr (.super super name)) env
            decl g o d ∧
          H u ∧ Inherits u decl outer c far ∧ g.env = far :: outer ∧
          match c.chain.findSome? (fun k => k.methods.find? name.lexeme) with
          | some f => ∃ id near m', (evaluate 6 (.super super name) env).run m
                = (.ok (.function id { f with env := near :: f.env }), m') ∧
              m'.store.frame near = [(thisName, .object o d)]
          | none => (evaluate 6 (.super super name) env).run m
              = (.error (.error (.undefinedProperty name.lexeme name.pos)), m) := by
  intro source s H this super name
  let word (w : String) (column : Nat) : Token := ⟨.identifier, w, ⟨1, column⟩⟩
  let body : List Stmt := [.expr (.this this), .expr (.super super name)]
  let call : Expr := .call (.read ⟨⟨3⟩, word "B" 50⟩) ⟨.rightParen, ")", ⟨1, 52⟩⟩ []
  let classes : List Stmt :=
    [.classDecl (word "A" 7) none [.mk (word "m" 9) (.mk [] [])],
      .classDecl (word "B" 22) (some ⟨⟨0⟩, word "A" 24⟩) [.mk (word "init" 29) (.mk [] body)]]
  let a : Class := .mk 0 "A" none [("m", ⟨some "m", .mk [] [], [0], false⟩)]
  let b : Class := .mk 1 "B" (some a) [("init", ⟨some "init", .mk [] body, [1, 0], true⟩)]
  let frames : Array (Bindings Value) :=
    #[nativeBindings ++ [("A", .ofClass a), ("B", .ofClass b)], [("super", .ofClass a)]]
  let m (store : Store) : Machine :=
    ⟨store, ⟨#[none, some 1, some 2]⟩, .unlimited, .ofBytes [], 0, .steady⟩
  -- the session after the front end, and after the classes
  have haccept : s.accept source =
      (⟨m ⟨#[nativeBindings], #[], 0⟩, 4, .empty⟩, some (classes ++ .expr call :: [])) := by cbv
  have hclasses : Session.runStatements 12 ⟨m ⟨#[nativeBindings], #[], 0⟩, 4, .empty⟩ classes
      = ⟨⟨m ⟨frames, #[], 2⟩, 4, .empty⟩, none⟩ := by cbv
  have hcallee : (evaluate 11 (.read ⟨⟨3⟩, word "B" 50⟩) Store.globals).run (m ⟨frames, #[], 2⟩)
      = (.ok (.ofClass b), m ⟨frames, #[], 2⟩) := by cbv
  have hbegins := Begins.line haccept (congrArg Step.halt hclasses)
  rw [hclasses] at hbegins
  have hcall := Visited.begins (show [Entry.line source] = [] ++ _ :: [] from rfl) hbegins
  have happly := hcall.makes (.applied hcallee rfl rfl)
  have hbody := (happly.makes (.initializer rfl rfl rfl)).makes (.body rfl)
  have hthis := (hbody.makes .firstStatement).makes .expression
  have hsuper := ((hbody.makes (.otherStatements rfl)).makes .firstStatement).makes .expression
  have hstay := this_and_super_stay 12 .unlimited (.ofBytes []) 0 .steady [.line source]
  exact ⟨_, _, ⟨hthis, hstay.1 _ this _ _ hthis⟩, hsuper, hstay.2 _ super name _ _ hsuper⟩

end Lox
