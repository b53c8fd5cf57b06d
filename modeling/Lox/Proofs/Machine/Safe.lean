import Lox.Proofs.Machine.Invariant
import Lox.Proofs.Machine.Lookup

/-!
# Computations without faults

* `Safe w k m x ok`: from a machine that is `Good`, `x` leads to one that is, whatever it comes to; no
  fault stops it, and its result is `ok`.
* `Safe.bind`: what follows may use that the first computation came to its result.
* Each part of the evaluator that runs no program itself is safe. Access to a frame is, because a
  distance never leads past the layers of a place (`lookUp_safe`); `super` is, because its layer and
  that of `this` lie next to each other (`superMethod_safe`).
-/

namespace Lox

variable {α β : Type} {w : World} {k : Nat} {m m' : Machine} {v : Visit}

/-! ## 1. Safe computations -/

/-- **A computation that no fault stops**, with a result that is `ok`. -/
structure Safe (w : World) (k : Nat) (m : Machine) (x : Run α) (ok : Machine → α → Prop) :
    Prop where
  after : After w k m (x.run m).2
  value : ∀ a, (x.run m).1 = .ok a → ok (x.run m).2 a
  fault : ∀ f, (x.run m).1 ≠ .error (.fault f)

namespace Safe

variable {x : Run α} {f : α → Run β} {ok : Machine → α → Prop} {ok' : Machine → β → Prop}

theorem of_ok {a : α} (hx : x.run m = (.ok a, m')) (ha : After w k m m') (hok : ok m' a) :
    Safe w k m x ok := by
  refine ⟨?_, fun b hb => ?_, fun f hf => ?_⟩
  · rw [hx]
    exact ha
  · rw [hx] at hb ⊢
    cases hb
    exact hok
  · rw [hx] at hf
    cases hf

theorem of_error {e : Stop} (hx : x.run m = (.error e, m')) (ha : After w k m m')
    (he : ∀ f, e ≠ .fault f) : Safe w k m x ok := by
  refine ⟨?_, fun b hb => ?_, fun f hf => ?_⟩
  · rw [hx]
    exact ha
  · rw [hx] at hb
    cases hb
  · rw [hx] at hf
    cases hf
    exact he f rfl

theorem pure {a : α} (h : Good w k m) (ha : ok m a) : Safe w k m (Pure.pure a) ok :=
  .of_ok rfl (.refl h) ha

theorem of_raised {e : RuntimeError} (h : Good w k m) (hx : x.run m = (.error (.error e), m)) :
    Safe w k m x ok := .of_error hx (.refl h) fun _ h => nomatch h

theorem raise {e : RuntimeError} (h : Good w k m) : Safe w k m (raise e : Run α) ok :=
  .of_raised h rfl

theorem starved (h : Good w k m) : Safe w k m (outOfFuel : Run α) ok :=
  .of_error rfl (.refl h) fun _ h => nomatch h

/-- What is known when the computation came to a result. -/
theorem of_run {a : α} (h : Safe w k m x ok) (hx : x.run m = (.ok a, m')) :
    After w k m m' ∧ ok m' a := by
  have hafter := h.after
  have hvalue := h.value a
  rw [hx] at hafter hvalue
  exact ⟨hafter, hvalue rfl⟩

theorem mono {ok' : Machine → α → Prop} (h : Safe w k m x ok) (hok : ∀ m' a, ok m' a → ok' m' a) :
    Safe w k m x ok' :=
  ⟨h.after, fun a ha => hok _ _ (h.value a ha), h.fault⟩

/-- What was bound before stays bound. -/
theorem since {m₀ : Machine} {env : Env} {name : String} (h : Safe w k m x ok)
    (hb : BoundSince m₀ env name m) : Safe w k m x (fun m' _ => BoundSince m₀ env name m') :=
  ⟨h.after, fun _ _ => hb.keeps h.after.keeps, h.fault⟩

theorem congr {y : Run α} (hrun : x.run m = y.run m) (h : Safe w k m y ok) : Safe w k m x ok := by
  obtain ⟨hafter, hvalue, hfault⟩ := h
  rw [← hrun] at hafter hvalue hfault
  exact ⟨hafter, hvalue, hfault⟩

/-- **One computation after another.** -/
theorem bind (hx : Safe w k m x ok)
    (hf : ∀ a m', x.run m = (.ok a, m') → After w k m m' → ok m' a → Safe w k m' (f a) ok') :
    Safe w k m (x >>= f) ok' := by
  cases hrun : x.run m with
  | mk r m' =>
    cases r with
    | ok a =>
      obtain ⟨hafter, hok⟩ := hx.of_run hrun
      have hnext := hf a m' hrun hafter hok
      have heq := run_bind_ok (f := f) hrun
      refine ⟨?_, fun b hb => ?_, fun e he => ?_⟩
      · rw [heq]
        exact hafter.trans hnext.after
      · rw [heq] at hb ⊢
        exact hnext.value b hb
      · rw [heq] at he
        exact hnext.fault e he
    | error e =>
      have hafter := hx.after
      have hfault := hx.fault
      rw [hrun] at hafter hfault
      exact .of_error (run_bind_error hrun) hafter fun f he => hfault f (by rw [he])

end Safe

/-! ## 2. Reading in frames -/

/-- What reading a name in a frame comes to. -/
theorem readIn_safe (h : Good w k m) {x : Run Value} {f : FrameId} {t : Token}
    (hx : x.run m = (readIn m.store f t, m)) :
    Safe w k m x (fun m' u => m' = m ∧ ValueOk w k m u) := by
  unfold readIn at hx
  cases hu : (m.store.frame f).find? t.lexeme with
  | some u =>
    rw [hu] at hx
    exact .of_ok hx (.refl h) ⟨rfl, h.frames f _ _ hu⟩
  | none =>
    rw [hu] at hx
    exact .of_raised h hx

/-! ## 3. References -/

section References

variable {program : List Stmt} {node : Node} {p : Place} {env : Env} {ref : Reference}

/-- **A distance never leads past the frames** of the place. -/
theorem PlacedAt.distance_lt (hp : PlacedAt w k m v program node p env)
    (href : node.reference? = some ref) {d : Nat} (hd : m.distances.find? ref.id = some d) :
    d < p.layers.length ∧ d < env.length := by
  rw [hp.loaded.fits node p ref hp.occurs href] at hd
  obtain ⟨inner, l, outer, hlayers, hlength, -⟩ := depthIn_eq_some hd
  have hlt : d < p.layers.length := by
    rw [hlayers, List.length_append, List.length_cons]
    omega
  have hframes := hp.activated.length
  omega

/-- **A reference of a placed node means a frame.** -/
theorem PlacedAt.means (hp : PlacedAt w k m v program node p env)
    (href : node.reference? = some ref) : ∃ f, Means m.distances ref env f := by
  cases hd : m.distances.find? ref.id with
  | some d =>
    have hlt := (hp.distance_lt href hd).2
    exact ⟨env[d], means_at hd (List.getElem?_eq_getElem hlt)⟩
  | none => exact ⟨Store.globalFrame, means_global hd⟩

theorem lookUp_safe (h : Good w k m) (hp : PlacedAt w k m v program node p env)
    (href : node.reference? = some ref) :
    Safe w k m (lookUp ref env) (fun m' u => m' = m ∧ ValueOk w k m u) := by
  obtain ⟨f, hf⟩ := hp.means href
  exact readIn_safe h (hf.read m rfl)

theorem rebind_safe (h : Good w k m) (hp : PlacedAt w k m v program node p env)
    (href : node.reference? = some ref) (hn : Plain ref.name) {u : Value} (hu : ValueOk w k m u) :
    Safe w k m (rebind ref env u) (fun _ _ => True) := by
  obtain ⟨f, hf⟩ := hp.means href
  have hrun := hf.write m u rfl
  by_cases hb : (m.store.frame f).binds ref.name
  · rw [if_pos hb] at hrun
    exact .of_ok hrun (.defineIn h hn hu.later) trivial
  · rw [if_neg hb] at hrun
    exact .of_raised h hrun

end References

/-! ## 4. Functions and methods -/

theorem newFunction_run (f : Closure) : (newFunction f).run m
    = (.ok (.function m.store.nextIdentity f), { m with store := m.store.newIdentity.2 }) := rfl

theorem After.newIdentity (h : Good w k m) :
    After w k m { m with store := m.store.newIdentity.2 } :=
  .of_same h (fun _ => rfl) rfl (fun _ => rfl) rfl

theorem newFunction_safe (h : Good w k m) {f : Closure} (hf : FunctionOk w k m f) :
    Safe w k m (newFunction f) (ValueOk w k) := by
  have hafter := After.newIdentity h
  exact .of_ok (newFunction_run f) hafter (FunctionOk.later hf hafter.later)

theorem bindMethod_run (f : Closure) (this : Value) : (bindMethod f this).run m
    = (.ok { f with env := m.store.frames.size :: f.env },
      { m with store := { m.store with frames := m.store.frames.push [(thisName, this)] } }) := rfl

/-- **A bound method has all the frames** of its place: the new one is that of `this`. -/
theorem bindMethod_safe (h : Good w k m) {f : Closure} {o : ObjectId} {c cf : Class} {name : String}
    (hc : ClassOk w k m c) (hcf : ClassOk w k m cf) (hf : cf.method? name = some f) {n : Nat}
    {call : Call} {m₀ : Machine} (hcall : w.calls ⟨n + 1, call, m₀⟩) (hb : Binds n call m₀ f m)
    (hr : Receives n call m₀ o c) :
    Safe w k m (bindMethod f (.object o c)) (fun m' g => g.code = f.code ∧ FunctionOk w k m' g) := by
  obtain ⟨u, program, p, s, layers, hm⟩ := hcf name f hf
  have hthis : ValueOk w k m (.object o c) := hc
  have hafter := After.pushOne h thisName hthis
  have hfind : (({ m.store with frames := m.store.frames.push [(thisName, .object o c)] } :
      Store).frame m.store.frames.size).find? thisName = some (.object o c) := by
    rw [Store.frame_push, if_pos rfl]
    rfl
  refine .of_ok (bindMethod_run f _) hafter ⟨rfl, _, program, p, .bound hcall hb rfl rfl,
    ⟨⟨hm.accepted, hm.loaded.mono hafter.later.le hafter.later.ids, hm.occurs, ?_, ?_⟩, ?_⟩,
    hm.initializer, fun _ _ => ⟨_, f, o, c, _, hcall, .intro hb hr, rfl, rfl, hfind⟩⟩
  · rw [hm.around]
    exact .this hcall hb hm.visited hm.declared hm.method hm.activated
  · rw [hm.around]
    exact .layer ⟨o, c, hfind⟩ (hafter.keeps.bound hm.bound)
  · rw [hm.around]
    refine .layer ?_ (fun n hn => .inl ?_) (hm.filled.mono hafter.keeps)
    · rw [Array.size_push]
      exact Nat.lt_succ_self _
    · obtain rfl := List.mem_singleton.mp hn
      exact Option.isSome_iff_exists.mpr ⟨_, hfind⟩

theorem boundMethod_safe (h : Good w k m) {f : Closure} {o : ObjectId} {c cf : Class} {name : String}
    (hc : ClassOk w k m c) (hcf : ClassOk w k m cf) (hf : cf.method? name = some f) {n : Nat}
    {call : Call} {m₀ : Machine} (hcall : w.calls ⟨n + 1, call, m₀⟩) (hb : Binds n call m₀ f m)
    (hr : Receives n call m₀ o c) : Safe w k m (boundMethod f (.object o c)) (ValueOk w k) :=
  (bindMethod_safe h hc hcf hf hcall hb hr).bind fun _ _ _ hafter hg =>
    newFunction_safe hafter.good hg.2

/-- A method of `c` bound to an instance of `d`, or the error that there is none. -/
def methodOr (c : Class) (name : Token) (o : ObjectId) (d : Class) : Run Value :=
  match c.method? name.lexeme with
  | some f => boundMethod f (.object o d)
  | none => raise (.undefinedProperty name.lexeme name.pos)

theorem run_property (o : ObjectId) (c : Class) (name : Token) (m : Machine) :
    (property o c name).run m = (match (m.store.fields o).find? name.lexeme with
      | some v => return v
      | none => methodOr c name o c : Run Value).run m := rfl

theorem property_safe (h : Good w k m) {object : Expr} {name : Token} {env : Env} {o : ObjectId}
    {c : Class} (hc : ClassOk w k m c) {n : Nat} {m₀ : Machine}
    (hcall : w.calls ⟨n + 1, .evaluate (.get object name) env, m₀⟩)
    (hobject : (evaluate n object env).run m₀ = (.ok (.object o c), m)) :
    Safe w k m (property o c name) (ValueOk w k) := by
  have hrun := run_property o c name m
  cases hfield : (m.store.fields o).find? name.lexeme with
  | some v =>
    rw [hfield] at hrun
    exact .of_ok hrun (.refl h) (h.fields o _ _ hfield)
  | none =>
    rw [hfield] at hrun
    unfold methodOr at hrun
    cases hf : c.method? name.lexeme with
    | some f =>
      rw [hf] at hrun
      exact .congr hrun (boundMethod_safe h hc hc hf hcall (.get hobject hfield hf) (.get hobject))
    | none =>
      rw [hf] at hrun
      exact .of_raised h hrun

section Super

variable {program : List Stmt} {p : Place} {env : Env} {ref : Reference} {method : Token}

/-- `super` is spelled so. -/
theorem PlacedAt.super_lexeme
    (hp : PlacedAt w k m v program (.expr (.super ref method)) p env) :
    ref.token.lexeme = superName := by
  have hshaped : ref.token.Is .kwSuper Token.Spelled := hp.occurs.shaped hp.loaded.shaped
  exact hshaped.2.super hshaped.1

/-- **Where `super` stands**, its frame binds a class, and the frame one link nearer an instance. -/
theorem PlacedAt.super_frames (hp : PlacedAt w k m v program (.expr (.super ref method)) p env) :
    ∃ d f g, m.distances.find? ref.id = some (d + 1) ∧ env[d]? = some f ∧ env[d + 1]? = some g ∧
      (∃ o c, (m.store.frame f).find? thisName = some (.object o c)) ∧
      ∃ c, (m.store.frame g).find? superName = some (.ofClass c) := by
  have hregular := hp.occurs.regular hp.loaded.shaped
  have hclass := hp.loaded.rules.super ref method p hp.occurs
  obtain ⟨inner, s, names, names', outer, hlayers, hdepth, -⟩ :=
    depthIn_methods (hregular.derived hclass) hregular.named
  have hname : ref.name = superName := hp.super_lexeme
  have hbound := hp.bound
  rw [hlayers] at hbound
  have hbehind := hbound.drop
  cases hdrop : env.drop inner.length with
  | nil =>
    rw [hdrop] at hbehind
    cases hbehind
  | cons f rest =>
    rw [hdrop] at hbehind
    cases hbehind with
    | layer hthis hrest =>
      cases hrest with
      | @layer g env' _ _ hsuper _ =>
        obtain ⟨_, c, -, -, hsuper⟩ := hsuper
        refine ⟨inner.length, f, g, ?_, ?_, ?_, hthis, c, hsuper⟩
        · rw [hp.loaded.fits _ p ref hp.occurs rfl, hname, hdepth]
        · have h0 := congrArg (·[0]?) hdrop
          rwa [List.getElem?_drop] at h0
        · have h1 := congrArg (·[1]?) hdrop
          rwa [List.getElem?_drop] at h1

/-- What is left of a superclass method when the class is known, and so is its distance. -/
def superMethodOf (c : Class) (method : Token) (env : Env) (nearer : Nat) : Run Value := do
  match ← readAt env nearer hiddenThis with
  | .object o d => methodOr c method o d
  | v => throw (.fault (.thisNotInstance v.display))

theorem run_superMethod (ref : Reference) (method : Token) (env : Env) (m : Machine) :
    (superMethod ref method env).run m = (match m.distances.find? ref.id with
      | none => throw (.fault (.superUnresolved ref.token.pos.line))
      | some distance => do
        match ← readAt env distance ref.token with
        | .ofClass c =>
          match distance with
          | 0 => throw (.fault .superTooNear)
          | nearer + 1 => superMethodOf c method env nearer
        | v => throw (.fault (.superNotClass v.display)) : Run Value).run m := rfl

/-- **A superclass method**, when its frames are known. -/
theorem superMethod_run (method : Token) {d : Nat} {f g : FrameId} {o : ObjectId} {c cs : Class}
    (hd : m.distances.find? ref.id = some (d + 1)) (hf : env[d]? = some f)
    (hg : env[d + 1]? = some g) (hname : ref.token.lexeme = superName)
    (hthis : (m.store.frame f).find? thisName = some (.object o c))
    (hsuper : (m.store.frame g).find? superName = some (.ofClass cs)) :
    (lookUp ref env).run m = (.ok (.ofClass cs), m) ∧
      (readAt env d hiddenThis).run m = (.ok (.object o c), m) ∧
      (superMethod ref method env).run m = (methodOr cs method o c).run m := by
  have hreadSuper : (readAt env (d + 1) ref.token).run m = (.ok (.ofClass cs), m) := by
    rw [readAt_run hg, readIn, hname, hsuper]
  have hreadThis : (readAt env d hiddenThis).run m = (.ok (.object o c), m) := by
    rw [readAt_run hf, readIn, show hiddenThis.lexeme = thisName from rfl, hthis]
  refine ⟨(lookUp_at hd).trans hreadSuper, hreadThis, ?_⟩
  rw [run_superMethod, hd]
  refine (run_bind_ok hreadSuper).trans ?_
  exact run_bind_ok hreadThis

theorem superMethod_safe (h : Good w k m)
    (hp : PlacedAt w k m v program (.expr (.super ref method)) p env) {n : Nat}
    (hcall : w.calls ⟨n + 1, .evaluate (.super ref method) env, m⟩) :
    Safe w k m (superMethod ref method env) (ValueOk w k) := by
  obtain ⟨d, f, g, hd, hf, hg, ⟨o, c, hthis⟩, ⟨cs, hsuper⟩⟩ := hp.super_frames
  obtain ⟨hlook, hreadThis, hrun⟩ :=
    superMethod_run method hd hf hg hp.super_lexeme hthis hsuper
  unfold methodOr at hrun
  cases hm : cs.method? method.lexeme with
  | some f =>
    rw [hm] at hrun
    have hc : ClassOk w k m c := h.frames _ _ _ hthis
    have hcs : ClassOk w k m cs := h.frames _ _ _ hsuper
    exact .congr hrun (boundMethod_safe h hc hcs hm hcall (.super hlook hm) (.super hd hreadThis))
  | none =>
    rw [hm] at hrun
    exact .of_raised h hrun

end Super

end Lox
