import Lox.Proofs.Machine.Calls
import Lox.Proofs.Scope.Initializers
import Lox.Proofs.Scope.Methods
import Lox.Proofs.Scope.Numbering

/-!
# What holds while programs run

Everything a running program can get hold of fits the places of the programs it comes from.

* `PlacedAt`: **a node and an environment fit a place**, at a visit: the node occurs there, the table of
  distances is right about the program, the frames of the environment are those of the current
  activations of the layers, and those of a class bind what they were opened for (`Bound`).
* `ReadyAt`: so that it can run there, the frames also bind the names that are declared in front of it
  (`Filled`), but for the variables in whose initializers it lies.
* `FunctionOk`, `ClassOk`, `ValueOk`: a function has an environment that fits where its code stands. A
  method that is bound to no instance lacks the frame of `this`.
* `Good`: all that the store holds is so. `CallOk` says what a call may be about.
* `Later`: what a run never undoes. All of the above is kept from one machine to a later one.
-/

namespace Lox

/-! ## 1. Frames of classes -/

/-- **A function whose code is that of a method** was obtained through an instance, and its first frame
    binds `this` to that instance. -/
def ThroughInstance (H : History) (s : Store) (code : Code) (env : Env) (layers : List Layer) :
    Prop :=
  ∀ decl, HeadsClass decl layers → ∃ v g o d frame, H v ∧ Obtains v g o d frame ∧ g.code = code ∧
    env = frame :: g.env ∧ (s.frame frame).find? thisName = some (.object o d)

/-- What a layer wants of its frame, and of the environment and the layers behind. -/
def Region.Holds (H : History) (s : Store) (f : FrameId) (env : Env) (layers : List Layer) :
    Region → Prop
  | .this _ => ∃ o c, (s.frame f).find? thisName = some (.object o c)
  | .super decl => ∃ v c, H v ∧ Inherits v decl env c f ∧
      (s.frame f).find? superName = some (.ofClass c)
  | .call code => ThroughInstance H s code env layers
  | .block _ | .loop _ => True

/-- The frames of the layers of classes bind what they are for. -/
inductive Bound (H : History) (s : Store) : Env → List Layer → Prop where
  | global {env} : Bound H s env []
  | layer {f env l layers} (hl : l.region.Holds H s f env layers) (h : Bound H s env layers) :
      Bound H s (f :: env) (l :: layers)

theorem Bound.drop {H : History} {s : Store} {env : Env} {inner outer : List Layer}
    (h : Bound H s env (inner ++ outer)) : Bound H s (env.drop inner.length) outer := by
  induction inner generalizing env with
  | nil => exact h
  | cons l inner ih =>
    cases h with
    | layer _ h => exact ih h

theorem Region.Holds.regions {H : History} {s : Store} {f : FrameId} {env : Env} {r : Region}
    {layers layers' : List Layer} (h : r.Holds H s f env layers)
    (hr : layers'.map Layer.region = layers.map Layer.region) : r.Holds H s f env layers' := by
  cases r with
  | call => exact fun decl hd => h decl (hd.regions hr)
  | this | super | block | loop => exact h

theorem Bound.regions {H : History} {s : Store} {env : Env} {layers layers' : List Layer}
    (h : Bound H s env layers) (hr : layers'.map Layer.region = layers.map Layer.region) :
    Bound H s env layers' := by
  induction h generalizing layers' with
  | global =>
    obtain rfl := List.map_eq_nil_iff.mp hr
    exact .global
  | layer hl _ ih =>
    obtain ⟨l', rest, rfl, hregion, hrest⟩ := List.map_eq_cons_iff.mp hr
    exact .layer (hregion ▸ hl.regions hrest) (ih hrest)

/-- What a run never undoes in a store: `this` and `super` stay bound to what they are bound to, frames
    stay, and so do the names in them. -/
structure Keeps (s s' : Store) : Prop where
  fixed : ∀ f name v, ¬ Plain name → (s.frame f).find? name = some v →
    (s'.frame f).find? name = some v
  size : s.frames.size ≤ s'.frames.size
  binds : ∀ f name, (s.frame f).binds name = true → (s'.frame f).binds name = true

namespace Keeps

variable {s s' s'' : Store}

theorem refl (s : Store) : Keeps s s := ⟨fun _ _ _ _ h => h, Nat.le_refl _, fun _ _ h => h⟩

theorem trans (h : Keeps s s') (h' : Keeps s' s'') : Keeps s s'' where
  fixed f name v hn hv := h'.fixed f name v hn (h.fixed f name v hn hv)
  size := Nat.le_trans h.size h'.size
  binds f name hb := h'.binds f name (h.binds f name hb)

theorem of_same (hframes : ∀ f, s'.frame f = s.frame f) (hsize : s'.frames.size = s.frames.size) :
    Keeps s s' where
  fixed f _ _ _ hv := hframes f ▸ hv
  size := Nat.le_of_eq hsize.symm
  binds f _ hb := hframes f ▸ hb

section

variable {H : History}

theorem throughInstance (h : Keeps s s') {code : Code} {env : Env} {layers : List Layer}
    (ht : ThroughInstance H s code env layers) : ThroughInstance H s' code env layers := by
  intro decl hd
  obtain ⟨v, g, o, d, frame, hv, hobtains, hcode, henv, hthis⟩ := ht decl hd
  exact ⟨v, g, o, d, frame, hv, hobtains, hcode, henv, h.fixed frame _ _ (fun hp => hp.1 rfl) hthis⟩

theorem holds (h : Keeps s s') {f : FrameId} {env : Env} {layers : List Layer} {r : Region}
    (hr : r.Holds H s f env layers) : r.Holds H s' f env layers := by
  cases r with
  | block | loop => trivial
  | call => exact h.throughInstance hr
  | this =>
    obtain ⟨o, c, hv⟩ := hr
    exact ⟨o, c, h.fixed f _ _ (fun hp => hp.1 rfl) hv⟩
  | super =>
    obtain ⟨v, c, hv, hinherits, hsuper⟩ := hr
    exact ⟨v, c, hv, hinherits, h.fixed f _ _ (fun hp => hp.2 rfl) hsuper⟩

theorem bound (h : Keeps s s') {env : Env} {layers : List Layer} (hb : Bound H s env layers) :
    Bound H s' env layers := by
  induction hb with
  | global => exact .global
  | layer hl _ ih => exact .layer (h.holds hl) ih

end

end Keeps

/-! ## 2. Frames of declared names -/

/-- **The frames of some layers bind their names**, but for those that are awaited. -/
inductive Filled (s : Store) (waits : List Layer → String → Prop) : Env → List Layer → Prop where
  | global {env} : Filled s waits env []
  | layer {f env l layers} (hf : f < s.frames.size)
      (hl : ∀ n ∈ l.names, (s.frame f).binds n = true ∨ waits (l :: layers) n)
      (h : Filled s waits env layers) : Filled s waits (f :: env) (l :: layers)

/-- The first frame of an environment. -/
def Env.First (env : Env) (f : FrameId) : Prop := ∃ outer, env = f :: outer

namespace Filled

variable {s s' : Store} {waits waits' : List Layer → String → Prop} {env : Env}
  {layers : List Layer}

theorem mono (h : Filled s waits env layers) (hk : Keeps s s') : Filled s' waits env layers := by
  induction h with
  | global => exact .global
  | layer hf hl _ ih =>
    exact .layer (Nat.lt_of_lt_of_le hf hk.size) (fun n hn => (hl n hn).imp_left (hk.binds _ n)) ih

theorem imp (h : Filled s waits env layers) (hw : ∀ layers n, waits layers n → waits' layers n) :
    Filled s waits' env layers := by
  induction h with
  | global => exact .global
  | layer hf hl _ ih => exact .layer hf (fun n hn => (hl n hn).imp_right (hw _ n)) ih

/-- The frame of a layer is there, and binds a name of it that is not awaited. -/
theorem drop {inner outer : List Layer} {l : Layer} {f : FrameId}
    (h : Filled s waits env (inner ++ l :: outer)) (hf : env[inner.length]? = some f) :
    f < s.frames.size ∧ ∀ n ∈ l.names, (s.frame f).binds n = true ∨ waits (l :: outer) n := by
  induction inner generalizing env with
  | nil =>
    cases h with
    | layer hsize hl _ =>
      cases hf
      exact ⟨hsize, hl⟩
  | cons k inner ih =>
    cases h with
    | layer _ _ h => exact ih h hf

/-- Behind a declaration, whose name is bound or awaited. -/
theorem declare {p : Place} {name : String} (h : Filled s waits env p.layers)
    (hw : ∀ layers layers' n, layers'.map Layer.region = layers.map Layer.region →
      waits layers n → waits layers' n)
    (hname : ∀ f, env.First f → p.layers ≠ [] →
      (s.frame f).binds name = true ∨ waits p.layers name) :
    Filled s waits env (p.declare name).layers := by
  obtain ⟨ctx, layers⟩ := p
  cases h with
  | global => exact .global
  | @layer f env l layers hf hl h =>
    refine .layer hf (fun n hn => ?_) h
    rcases List.mem_append.mp hn with hn | hn
    · exact (hl n hn).imp_right (hw (l :: layers) _ n rfl)
    · obtain rfl := List.mem_singleton.mp hn
      exact (hname f ⟨_, rfl⟩ (List.cons_ne_nil _ _)).imp_right (hw (l :: layers) _ n rfl)

end Filled

/-! ## 3. What fits a place -/

/-- The calls that are made, and the programs that they run. -/
structure World where
  calls : History
  programs : List Stmt → Prop

/-- **A node and an environment fit a place** of a program, at a visit. All references are below `k`. -/
structure PlacedAt (w : World) (k : Nat) (m : Machine) (v : Visit) (program : List Stmt)
    (node : Node) (p : Place) (env : Env) : Prop where
  accepted : w.programs program
  loaded : Loaded m.distances k program
  occurs : Occurs program node p
  activated : Activated w.calls v env p.layers
  bound : Bound w.calls m.store env p.layers

section

variable (w : World) (k : Nat) (m : Machine)

/-- A node and an environment fit some place. -/
def Placed (v : Visit) (node : Node) (env : Env) : Prop :=
  ∃ program p, PlacedAt w k m v program node p env

/-- **A node can run at a place**: the frames bind the names of the layers, but for those of the
    variables in whose initializers it lies. -/
structure ReadyAt (v : Visit) (program : List Stmt) (node : Node) (p : Place) (env : Env) : Prop
    extends PlacedAt w k m v program node p env where
  filled : Filled m.store (Awaits program node p) env p.layers

/-- A node can run at some place. -/
def Ready (v : Visit) (node : Node) (env : Env) : Prop :=
  ∃ program p, ReadyAt w k m v program node p env

variable {w k m} in
theorem Ready.placed {v : Visit} {node : Node} {env : Env} (h : Ready w k m v node env) :
    Placed w k m v node env := by
  obtain ⟨program, p, h⟩ := h
  exact ⟨program, p, h.toPlacedAt⟩

/-- A function fits the place of its code, at the visit that made it or bound it. -/
def FunctionOk (f : Closure) : Prop :=
  ∃ v program p, Captured w.calls f v ∧ ReadyAt w k m v program (.code f.code) p f.env ∧
    (f.isInitializer = true → p.ctx.function = .initializer) ∧
    ThroughInstance w.calls m.store f.code f.env p.layers

/-- **A method that is bound to no instance** fits the place of its code but for the frame of `this`,
    and belongs to a class that was declared. -/
structure MethodAt (v : Visit) (program : List Stmt) (p : Place) (s : Stmt) (layers : List Layer)
    (f : Closure) : Prop where
  accepted : w.programs program
  loaded : Loaded m.distances k program
  occurs : Occurs program (.code f.code) p
  around : p.layers = ⟨.this s, [thisName]⟩ :: layers
  activated : Activated w.calls v f.env layers
  bound : Bound w.calls m.store f.env layers
  filled : Filled m.store (Awaits program (.code f.code) p) f.env layers
  initializer : f.isInitializer = true → p.ctx.function = .initializer
  method : s.hasMethod f.code
  visited : w.calls v
  declared : Declares v.call v.machine s f.env

/-- The methods of a class, its own and those of its superclasses. -/
def ClassOk (c : Class) : Prop :=
  ∀ name f, c.method? name = some f → ∃ v program p s layers, MethodAt w k m v program p s layers f

/-- The functions and classes of a value. -/
def ValueOk : Value → Prop
  | .function _ f => FunctionOk w k m f
  | .ofClass c | .object _ c => ClassOk w k m c
  | .nil | .bool _ | .number _ | .text _ | .native _ => True

/-- **All that the store holds.** -/
structure Good : Prop where
  frames : ∀ f name v, (m.store.frame f).find? name = some v → ValueOk w k m v
  fields : ∀ o name v, (m.store.fields o).find? name = some v → ValueOk w k m v

end

/-! ## 4. From one machine to a later one -/

/-- What is never undone: `this` and `super` stay bound, and what the table says of the references
    that there are. -/
structure Later (k k' : Nat) (m m' : Machine) : Prop where
  keeps : Keeps m.store m'.store
  le : k ≤ k'
  ids : ∀ id, id.index < k → m'.distances.find? id = m.distances.find? id

/-- **Statements that run in order**: each can run on any later machine on which the first frame binds
    the names of those in front of it. -/
structure Lined (w : World) (k : Nat) (m : Machine) (v : Visit) (ss : List Stmt) (env : Env) :
    Prop where
  valid : ∀ f, env.First f → f < m.store.frames.size
  ready : ∀ before s rest, ss = before ++ s :: rest → ∀ k' m', Later k k' m m' →
    (∀ f, env.First f → ∀ n ∈ declaredBy before, (m'.store.frame f).binds n = true) →
      Ready w k' m' v (.stmt s) env

/-- What a call may be about, at a visit. -/
def CallOk (w : World) (k : Nat) (m : Machine) (v : Visit) : Call → Prop
  | .evaluate e env => Ready w k m v (.expr e) env
  | .evaluateAll es env => ∀ e ∈ es, Ready w k m v (.expr e) env
  | .apply f args _ =>
    ValueOk w k m f ∧ (∀ v ∈ args, ValueOk w k m v) ∧ f.arity? = some args.length
  | .invoke f args =>
    FunctionOk w k m f ∧ (∀ v ∈ args, ValueOk w k m v) ∧ f.code.arity = args.length
  | .execute s env => Ready w k m v (.stmt s) env
  | .executeAll ss env => Lined w k m v ss env
  | .turns condition increment body env =>
    Ready w k m v (.expr condition) env ∧
      (∀ e, increment = some e → Ready w k m v (.expr e) env) ∧ Ready w k m v (.stmt body) env

section

variable {w : World} {k k' : Nat} {m m' : Machine} {v v' : Visit}

theorem PlacedAt.later {program : List Stmt} {node : Node} {p : Place} {env : Env}
    (h : PlacedAt w k m v program node p env) (hl : Later k k' m m') :
    PlacedAt w k' m' v program node p env :=
  { h with loaded := h.loaded.mono hl.le hl.ids, bound := hl.keeps.bound h.bound }

theorem ReadyAt.later {program : List Stmt} {node : Node} {p : Place} {env : Env}
    (h : ReadyAt w k m v program node p env) (hl : Later k k' m m') :
    ReadyAt w k' m' v program node p env :=
  ⟨h.toPlacedAt.later hl, h.filled.mono hl.keeps⟩

theorem Ready.later {node : Node} {env : Env} (h : Ready w k m v node env)
    (hl : Later k k' m m') : Ready w k' m' v node env := by
  obtain ⟨program, p, h⟩ := h
  exact ⟨program, p, h.later hl⟩

theorem FunctionOk.later {f : Closure} (h : FunctionOk w k m f) (hl : Later k k' m m') :
    FunctionOk w k' m' f := by
  obtain ⟨v, program, p, hcaptured, hready, hinit, hthrough⟩ := h
  exact ⟨v, program, p, hcaptured, hready.later hl, hinit, hl.keeps.throughInstance hthrough⟩

theorem ClassOk.later {c : Class} (h : ClassOk w k m c) (hl : Later k k' m m') :
    ClassOk w k' m' c := by
  intro name f hf
  obtain ⟨v, program, p, s, layers, h⟩ := h name f hf
  exact ⟨v, program, p, s, layers, {
    h with
    loaded := h.loaded.mono hl.le hl.ids
    bound := hl.keeps.bound h.bound
    filled := h.filled.mono hl.keeps }⟩

theorem ValueOk.later {v : Value} (h : ValueOk w k m v) (hl : Later k k' m m') :
    ValueOk w k' m' v := by
  cases v with
  | function => exact FunctionOk.later h hl
  | ofClass | object => exact ClassOk.later h hl
  | nil | bool | number | text | native => trivial

theorem Later.trans {k'' : Nat} {m'' : Machine} (h : Later k k' m m') (h' : Later k' k'' m' m'') :
    Later k k'' m m'' where
  keeps := h.keeps.trans h'.keeps
  le := Nat.le_trans h.le h'.le
  ids id hid := (h'.ids id (Nat.lt_of_lt_of_le hid h.le)).trans (h.ids id hid)

theorem Lined.later {ss : List Stmt} {env : Env} (h : Lined w k m v ss env)
    (hl : Later k k' m m') : Lined w k' m' v ss env where
  valid f hf := Nat.lt_of_lt_of_le (h.valid f hf) hl.keeps.size
  ready before s rest heq k'' m'' hl' := h.ready before s rest heq k'' m'' (hl.trans hl')

/-- **What a call is about** stays right. -/
theorem CallOk.later {c : Call} (h : CallOk w k m v c) (hl : Later k k' m m') :
    CallOk w k' m' v c := by
  cases c with
  | evaluate | execute => exact Ready.later h hl
  | evaluateAll => exact fun x hx => (h x hx).later hl
  | executeAll => exact Lined.later h hl
  | apply => exact ⟨h.1.later hl, fun v hv => (h.2.1 v hv).later hl, h.2.2⟩
  | invoke => exact ⟨h.1.later hl, fun v hv => (h.2.1 v hv).later hl, h.2.2⟩
  | turns => exact ⟨h.1.later hl, fun e he => (h.2.1 e he).later hl, h.2.2.later hl⟩

theorem Ready.within {node : Node} {env : Env} (h : Ready w k m v node env)
    (hnode : ∀ c, node ≠ .code c) (hl : Within v v') : Ready w k m v' node env := by
  obtain ⟨program, p, h⟩ := h
  exact ⟨program, p, { h with activated := h.activated.within hl (h.occurs.runs hnode) }⟩

/-- What a call is about is so at the visit of the call. -/
theorem CallOk.made {n : Nat} {c c' : Call} (h : CallOk w k m' ⟨n + 1, c, m⟩ c')
    (hm : Makes n c m c' m') : CallOk w k m' ⟨n, c', m'⟩ c' := by
  have hexpr (e : Expr) : ∀ code, Node.expr e ≠ .code code := fun _ => nofun
  have hstmt (s : Stmt) : ∀ code, Node.stmt s ≠ .code code := fun _ => nofun
  cases c' with
  | evaluate e => exact Ready.within h (hexpr e) (.makes .refl hm rfl)
  | execute s => exact Ready.within h (hstmt s) (.makes .refl hm rfl)
  | evaluateAll => exact fun x hx => (h x hx).within (hexpr x) (.makes .refl hm rfl)
  | executeAll =>
    exact ⟨h.valid, fun before s rest heq k' m' hl' hb =>
      (h.ready before s rest heq k' m' hl' hb).within (hstmt s) (.makes .refl hm rfl)⟩
  | apply | invoke => exact h
  | turns condition increment body =>
    have hwithin := Within.makes .refl hm rfl
    exact ⟨h.1.within (hexpr condition) hwithin,
      fun e he => (h.2.1 e he).within (hexpr e) hwithin, h.2.2.within (hstmt body) hwithin⟩

end

/-- What a step of a run leaves behind. -/
structure After (w : World) (k : Nat) (m m' : Machine) : Prop where
  good : Good w k m'
  keeps : Keeps m.store m'.store
  distances : m'.distances = m.distances

namespace After

variable {w : World} {k : Nat} {m m' m'' : Machine}

theorem refl (h : Good w k m) : After w k m m := ⟨h, .refl _, rfl⟩

theorem trans (h : After w k m m') (h' : After w k m' m'') : After w k m m'' :=
  ⟨h'.good, h.keeps.trans h'.keeps, h'.distances.trans h.distances⟩

theorem later (h : After w k m m') : Later k k m m' :=
  ⟨h.keeps, Nat.le_refl k, fun id _ => by rw [h.distances]⟩

end After

/-! ## 5. Changes of the store -/

namespace Store

theorem frame_defineIn (s : Store) (f g : FrameId) (name : String) (v : Value) :
    (s.defineIn f name v).frame g = if f = g ∧ g < s.frames.size then (s.frame g).put name v
      else s.frame g := by
  unfold frame defineIn
  rw [Array.getElem?_modify]
  by_cases hf : f = g
  · by_cases hg : g < s.frames.size
    · simp [hf, hg]
    · simp [hf, hg]
  · simp [hf]

theorem frame_push (s : Store) (b : Bindings Value) (g : FrameId) :
    ({ s with frames := s.frames.push b } : Store).frame g
      = if g = s.frames.size then b else s.frame g := by
  unfold frame
  rw [Array.getElem?_push]
  split <;> rfl

theorem fields_setField (s : Store) (o q : ObjectId) (name : String) (v : Value) :
    (s.setField o name v).fields q = if o = q ∧ q < s.objects.size then (s.fields q).put name v
      else s.fields q := by
  unfold fields setField
  rw [Array.getElem?_modify]
  by_cases ho : o = q
  · by_cases hq : q < s.objects.size
    · simp [ho, hq]
    · simp [ho, hq]
  · simp [ho]

theorem fields_newObject (s : Store) (q : ObjectId) : s.newObject.2.fields q = s.fields q := by
  unfold fields newObject
  rw [Array.getElem?_push]
  split
  · next h => rw [h, Array.getElem?_eq_none (Nat.le_refl _)]; rfl
  · rfl

end Store

section

variable {w : World} {k : Nat} {m : Machine}

/-- A machine with the same frames and fields, and the same table. -/
theorem After.of_same {m' : Machine} (h : Good w k m)
    (hframes : ∀ f, m'.store.frame f = m.store.frame f)
    (hsize : m'.store.frames.size = m.store.frames.size)
    (hfields : ∀ o, m'.store.fields o = m.store.fields o) (hd : m'.distances = m.distances) :
    After w k m m' := by
  have hkeeps : Keeps m.store m'.store := .of_same hframes hsize
  have hlater : Later k k m m' := ⟨hkeeps, Nat.le_refl k, fun id _ => by rw [hd]⟩
  refine ⟨⟨fun f name v hv => ?_, fun o name v hv => ?_⟩, hkeeps, hd⟩
  · rw [hframes] at hv
    exact (h.frames f name v hv).later hlater
  · rw [hfields] at hv
    exact (h.fields o name v hv).later hlater

theorem Keeps.defineIn (s : Store) (f : FrameId) {name : String} (v : Value) (hn : Plain name) :
    Keeps s (s.defineIn f name v) where
  fixed g n u hplain hu := by
    rw [Store.frame_defineIn]
    split
    · rw [Bindings.find?_put_ne]
      · exact hu
      · rintro rfl
        exact hplain hn
    · exact hu
  size := Nat.le_of_eq (Array.size_modify ..).symm
  binds g n hb := by
    rw [Store.frame_defineIn]
    split
    · rw [Bindings.binds, Bindings.find?_put]
      split
      · rfl
      · exact hb
    · exact hb

/-- **A binding is made** of a name that is neither `this` nor `super`. The value may depend on it. -/
theorem After.defineIn (h : Good w k m) {f : FrameId} {name : String} {v : Value} (hn : Plain name)
    (hv : Later k k m { m with store := m.store.defineIn f name v } →
      ValueOk w k { m with store := m.store.defineIn f name v } v) :
    After w k m { m with store := m.store.defineIn f name v } := by
  have hfind : ∀ g n u, ((m.store.defineIn f name v).frame g).find? n = some u →
      u = v ∨ (m.store.frame g).find? n = some u := by
    intro g n u hu
    rw [Store.frame_defineIn] at hu
    split at hu
    · rw [Bindings.find?_put] at hu
      split at hu
      · exact .inl (Option.some.inj hu).symm
      · exact .inr hu
    · exact .inr hu
  have hlater : Later k k m { m with store := m.store.defineIn f name v } :=
    ⟨.defineIn m.store f v hn, Nat.le_refl k, fun _ _ => rfl⟩
  refine ⟨⟨fun g n u hu => ?_, fun o n u hu => ?_⟩, hlater.keeps, rfl⟩
  · cases hfind g n u hu with
    | inl he => rw [he]; exact hv hlater
    | inr hu => exact (h.frames g n u hu).later hlater
  · exact (h.fields o n u hu).later hlater

theorem After.define (h : Good w k m) {env : Env} {name : String} {v : Value} (hn : Plain name)
    (hv : Later k k m { m with store := m.store.define env name v } →
      ValueOk w k { m with store := m.store.define env name v } v) :
    After w k m { m with store := m.store.define env name v } := by
  cases env with
  | nil => exact .refl h
  | cons f outer => exact .defineIn h hn hv

/-- The first frame of an environment binds a name, if it was there on the first machine. -/
def BoundSince (m : Machine) (env : Env) (name : String) (m' : Machine) : Prop :=
  ∀ f, env.First f → f < m.store.frames.size → (m'.store.frame f).binds name = true

theorem BoundSince.keeps {m₀ m m' : Machine} {env : Env} {name : String}
    (h : BoundSince m₀ env name m) (hk : Keeps m.store m'.store) : BoundSince m₀ env name m' :=
  fun f hf hsize => hk.binds f name (h f hf hsize)

/-- **A name that is defined is bound** in the first frame, if that is there. -/
theorem BoundSince.define {m₀ : Machine} (env : Env) (name : String) (v : Value)
    (hk : Keeps m₀.store m.store) :
    BoundSince m₀ env name { m with store := m.store.define env name v } := by
  rintro f ⟨outer, rfl⟩ hsize
  show ((m.store.defineIn f name v).frame f).binds name = true
  rw [Store.frame_defineIn, if_pos ⟨rfl, Nat.lt_of_lt_of_le hsize hk.size⟩, Bindings.binds,
    Bindings.find?_put_self]
  rfl

/-- A frame is new. -/
theorem After.push (h : Good w k m) {b : Bindings Value}
    (hb : ∀ name v, b.find? name = some v → ValueOk w k m v) :
    After w k m { m with store := { m.store with frames := m.store.frames.push b } } := by
  have hframe : ∀ g n u, (m.store.frame g).find? n = some u →
      (({ m.store with frames := m.store.frames.push b } : Store).frame g).find? n = some u := by
    intro g n u hu
    rw [Store.frame_push, if_neg]
    · exact hu
    · rintro rfl
      rw [Store.frame, Array.getElem?_eq_none (Nat.le_refl _)] at hu
      cases hu
  have hkeeps : Keeps m.store { m.store with frames := m.store.frames.push b } := by
    refine ⟨fun g n u _ hu => hframe g n u hu, ?_, fun g n hb => ?_⟩
    · show m.store.frames.size ≤ (m.store.frames.push b).size
      rw [Array.size_push]
      exact Nat.le_succ _
    · obtain ⟨u, hu⟩ := Option.isSome_iff_exists.mp hb
      exact Option.isSome_iff_exists.mpr ⟨u, hframe g n u hu⟩
  have hlater : Later k k m { m with store := { m.store with frames := m.store.frames.push b } } :=
    ⟨hkeeps, Nat.le_refl k, fun _ _ => rfl⟩
  refine ⟨⟨fun g n u hu => ?_, fun o n u hu => (h.fields o n u hu).later hlater⟩, hkeeps, rfl⟩
  rw [Store.frame_push] at hu
  split at hu
  · exact (hb n u hu).later hlater
  · exact (h.frames g n u hu).later hlater

/-- A frame is new that binds one name. -/
theorem After.pushOne (h : Good w k m) (name : String) {v : Value} (hv : ValueOk w k m v) :
    After w k m { m with store := { m.store with frames := m.store.frames.push [(name, v)] } } := by
  refine .push h fun n u hu => ?_
  unfold Bindings.find? at hu
  split at hu
  · cases hu
    exact hv
  · cases hu

theorem After.setField (h : Good w k m) {o : ObjectId} {name : String} {v : Value}
    (hv : ValueOk w k m v) : After w k m { m with store := m.store.setField o name v } := by
  have hkeeps : Keeps m.store (m.store.setField o name v) := .of_same (fun _ => rfl) rfl
  have hlater : Later k k m { m with store := m.store.setField o name v } :=
    ⟨hkeeps, Nat.le_refl k, fun _ _ => rfl⟩
  refine ⟨⟨fun g n u hu => (h.frames g n u hu).later hlater, fun q n u hu => ?_⟩, hkeeps, rfl⟩
  rw [Store.fields_setField] at hu
  split at hu
  · rw [Bindings.find?_put] at hu
    split at hu
    · cases hu
      exact hv.later hlater
    · exact (h.fields q n u hu).later hlater
  · exact (h.fields q n u hu).later hlater

end

end Lox
