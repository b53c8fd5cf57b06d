import Lox.Machine.Evaluate
import Lox.Proofs.Scope.Places

/-!
# What a run consists of

A run is calls of the functions of `Lox.Machine.Evaluate`, each of which makes others. This file names
the calls and says which frames they open; what comes back from a call is said by the evaluator
itself.

* `Makes n c m c' m'`: the call `c` with the fuel `n + 1` on the machine `m` makes the call `c'` with
  the fuel `n` on the machine `m'`.
* A `Visit` is a call with its fuel and its machine. `Leads a b`: `b` is `a`, or belongs to what `a`
  makes. `Within a b`: the same with no function entered on the way.
* `Obtains`, `Inherits`: the visits that open the frames of a class: one for the instance through which
  a method is obtained, one for the superclass that a declaration finds.
* `Activated H v env layers`: **the environment of a visit is that of the current activations** of some
  layers. The frame of a block, a loop or a function was opened by the visit that is under way there.
  The frame of a function hangs on the environment in which the function was made, and that of a method
  on the instance it was bound to. There is but one such environment (`Activated.eq_env`).
-/

namespace Lox

/-! ## 1. Calls -/

/-- A call of one of the functions that run a program. -/
inductive Call where
  | evaluate (e : Expr) (env : Env)
  | evaluateAll (es : List Expr) (env : Env)
  | apply (f : Value) (args : List Value) (paren : Token)
  | invoke (f : Closure) (args : List Value)
  | execute (s : Stmt) (env : Env)
  | executeAll (ss : List Stmt) (env : Env)
  | turns (condition : Expr) (increment : Option Expr) (body : Stmt) (env : Env)

/-- Whether a loop goes on after its body. -/
def Signal.goesOn : Signal → Bool
  | .normal | .next => true
  | .ret _ | .leave => false

/-- On with a loop: its increment, if there is one, and its other turns. -/
def goOn (n : Nat) (condition : Expr) (increment : Option Expr) (body : Stmt) (env : Env) :
    Run Signal :=
  match increment with
  | some e => do
    let _ ← evaluate n e env
    turns n condition increment body env
  | none => turns n condition increment body env

/-- **The calls that a call makes.** -/
inductive Makes (n : Nat) : Call → Machine → Call → Machine → Prop where
  -- expressions
  | group {e env m} : Makes n (.evaluate (.group e) env) m (.evaluate e env) m
  | operand {op e env m} : Makes n (.evaluate (.unary op e) env) m (.evaluate e env) m
  | binaryLeft {l op r env m} : Makes n (.evaluate (.binary l op r) env) m (.evaluate l env) m
  | binaryRight {l op r env m a m'} (hl : (evaluate n l env).run m = (.ok a, m')) :
      Makes n (.evaluate (.binary l op r) env) m (.evaluate r env) m'
  | logicalLeft {l op r env m} : Makes n (.evaluate (.logical l op r) env) m (.evaluate l env) m
  | logicalRight {l op r env m a m'} (hl : (evaluate n l env).run m = (.ok a, m'))
      (hd : decides op a = false) :
      Makes n (.evaluate (.logical l op r) env) m (.evaluate r env) m'
  | choiceCondition {c y no env m} :
      Makes n (.evaluate (.conditional c y no) env) m (.evaluate c env) m
  | choiceYes {c y no env m a m'} (hc : (evaluate n c env).run m = (.ok a, m'))
      (ha : a.isTruthy = true) : Makes n (.evaluate (.conditional c y no) env) m (.evaluate y env) m'
  | choiceNo {c y no env m a m'} (hc : (evaluate n c env).run m = (.ok a, m'))
      (ha : a.isTruthy = false) :
      Makes n (.evaluate (.conditional c y no) env) m (.evaluate no env) m'
  | assigned {ref v env m} : Makes n (.evaluate (.assign ref v) env) m (.evaluate v env) m
  | callee {f paren args env m} :
      Makes n (.evaluate (.call f paren args) env) m (.evaluate f env) m
  | arguments {f paren args env m v m'} (hf : (evaluate n f env).run m = (.ok v, m')) :
      Makes n (.evaluate (.call f paren args) env) m (.evaluateAll args env) m'
  | applied {f paren args env m v m' vs m''} (hf : (evaluate n f env).run m = (.ok v, m'))
      (hargs : (evaluateAll n args env).run m' = (.ok vs, m'')) (harity : v.arity? = some vs.length) :
      Makes n (.evaluate (.call f paren args) env) m (.apply v vs paren) m''
  | getObject {o name env m} : Makes n (.evaluate (.get o name) env) m (.evaluate o env) m
  | setObject {o name v env m} : Makes n (.evaluate (.set o name v) env) m (.evaluate o env) m
  | setValue {o name v env m i c m'} (ho : (evaluate n o env).run m = (.ok (.object i c), m')) :
      Makes n (.evaluate (.set o name v) env) m (.evaluate v env) m'
  | first {e rest env m} : Makes n (.evaluateAll (e :: rest) env) m (.evaluate e env) m
  | others {e rest env m v m'} (he : (evaluate n e env).run m = (.ok v, m')) :
      Makes n (.evaluateAll (e :: rest) env) m (.evaluateAll rest env) m'
  -- calls of values
  | function {i f args paren m} : Makes n (.apply (.function i f) args paren) m (.invoke f args) m
  | initializer {c args paren m f o m' bound m''} (hf : c.method? initializerName = some f)
      (ho : (allocate Store.newObject).run m = (.ok o, m'))
      (hb : (bindMethod f (.object o c)).run m' = (.ok bound, m'')) :
      Makes n (.apply (.ofClass c) args paren) m (.invoke bound args) m''
  | body {f args m env m'}
      (hframe : (newFrame f.env (parameterBindings f args)).run m = (.ok env, m')) :
      Makes n (.invoke f args) m (.executeAll f.code.body env) m'
  -- statements
  | expression {e env m} : Makes n (.execute (.expr e) env) m (.evaluate e env) m
  | declared {name e env m} : Makes n (.execute (.varDecl name e) env) m (.evaluate e env) m
  | branchCondition {c y no env m} : Makes n (.execute (.branch c y no) env) m (.evaluate c env) m
  | branchYes {c y no env m a m'} (hc : (evaluate n c env).run m = (.ok a, m'))
      (ha : a.isTruthy = true) : Makes n (.execute (.branch c y no) env) m (.execute y env) m'
  | branchNo {c y no env m a m'} (hc : (evaluate n c env).run m = (.ok a, m'))
      (ha : a.isTruthy = false) :
      Makes n (.execute (.branch c y (some no)) env) m (.execute no env) m'
  | whileTurns {c b env m} : Makes n (.execute (.whileLoop c b) env) m (.turns c none b env) m
  | loopStart {s c i b env m inner m'} (hframe : (newFrame env []).run m = (.ok inner, m')) :
      Makes n (.execute (.forLoop (some s) c i b) env) m (.execute s inner) m'
  | loopTurns {s c i b env m inner m' r m''} (hframe : (newFrame env []).run m = (.ok inner, m'))
      (hs : (execute n s inner).run m' = (.ok r, m'')) :
      Makes n (.execute (.forLoop (some s) c i b) env) m (.turns c i b inner) m''
  | bareTurns {c i b env m inner m'} (hframe : (newFrame env []).run m = (.ok inner, m')) :
      Makes n (.execute (.forLoop none c i b) env) m (.turns c i b inner) m'
  | block {body env m inner m'} (hframe : (newFrame env []).run m = (.ok inner, m')) :
      Makes n (.execute (.block body) env) m (.executeAll body inner) m'
  | returned {keyword e env m} :
      Makes n (.execute (.ret keyword (some e)) env) m (.evaluate e env) m
  | firstStatement {s rest env m} : Makes n (.executeAll (s :: rest) env) m (.execute s env) m
  | otherStatements {s rest env m m'} (hs : (execute n s env).run m = (.ok .normal, m')) :
      Makes n (.executeAll (s :: rest) env) m (.executeAll rest env) m'
  -- turns of a loop
  | turnCondition {c i b env m} : Makes n (.turns c i b env) m (.evaluate c env) m
  | turnBody {c i b env m a m'} (hc : (evaluate n c env).run m = (.ok a, m'))
      (ha : a.isTruthy = true) : Makes n (.turns c i b env) m (.execute b env) m'
  | turnIncrement {c i b env m a m' r m''} (hc : (evaluate n c env).run m = (.ok a, m'))
      (ha : a.isTruthy = true) (hb : (execute n b env).run m' = (.ok r, m''))
      (hr : r.goesOn = true) : Makes n (.turns c (some i) b env) m (.evaluate i env) m''
  | nextTurn {c i b env m a m' r m'' v m'''} (hc : (evaluate n c env).run m = (.ok a, m'))
      (ha : a.isTruthy = true) (hb : (execute n b env).run m' = (.ok r, m''))
      (hr : r.goesOn = true) (hi : (evaluate n i env).run m'' = (.ok v, m''')) :
      Makes n (.turns c (some i) b env) m (.turns c (some i) b env) m'''
  | nextBareTurn {c b env m a m' r m''} (hc : (evaluate n c env).run m = (.ok a, m'))
      (ha : a.isTruthy = true) (hb : (execute n b env).run m' = (.ok r, m''))
      (hr : r.goesOn = true) : Makes n (.turns c none b env) m (.turns c none b env) m''

/-! ## 2. Functions and classes made by calls -/

/-- The call makes a function of the code, and keeps the environment for it. -/
inductive Creates : Call → Code → Env → Prop where
  | lambda {code env} : Creates (.evaluate (.lambda code) env) code env
  | function {name code env} : Creates (.execute (.funDecl (.mk name code)) env) code env

/-- The call declares the class of a statement, and keeps the environment for its methods: where
    there is a superclass, with a frame of its own in front. -/
inductive Declares : Call → Machine → Stmt → Env → Prop where
  | base {name methods env m} : Declares (.execute (.classDecl name none methods) env) m
      (.classDecl name none methods) env
  | derived {name ref methods env m c m'}
      (h : (superclassOf (some ref) env).run { m with store := m.store.define env name.lexeme .nil }
        = (.ok (some c), m')) :
      Declares (.execute (.classDecl name (some ref) methods) env) m
        (.classDecl name (some ref) methods) (m'.store.frames.size :: env)

/-- The call binds a method to an instance, on the machine `m'`. -/
inductive Binds (n : Nat) : Call → Machine → Closure → Machine → Prop where
  | get {object name env m o c f m'} (h : (evaluate n object env).run m = (.ok (.object o c), m'))
      (hfield : (m'.store.fields o).find? name.lexeme = none)
      (hf : c.method? name.lexeme = some f) : Binds n (.evaluate (.get object name) env) m f m'
  | super {ref method env m c f}
      (h : (lookUp ref env).run m = (.ok (.ofClass c), m)) (hf : c.method? method.lexeme = some f) :
      Binds n (.evaluate (.super ref method) env) m f m
  | initializer {c args paren m f o m'} (h : (allocate Store.newObject).run m = (.ok o, m'))
      (hf : c.method? initializerName = some f) : Binds n (.apply (.ofClass c) args paren) m f m'

/-- The instance that a call binds a method to. -/
inductive Receives (n : Nat) : Call → Machine → ObjectId → Class → Prop where
  | get {object name env m o c m'}
      (h : (evaluate n object env).run m = (.ok (.object o c), m')) :
      Receives n (.evaluate (.get object name) env) m o c
  | super {ref method env m nearer o c} (hd : m.distances.find? ref.id = some (nearer + 1))
      (h : (readAt env nearer hiddenThis).run m = (.ok (.object o c), m)) :
      Receives n (.evaluate (.super ref method) env) m o c
  | initializer {c args paren m o m'} (h : (allocate Store.newObject).run m = (.ok o, m')) :
      Receives n (.apply (.ofClass c) args paren) m o c

/-! ## 3. Visits -/

/-- A call with its fuel, on the machine on which it starts. -/
structure Visit where
  fuel : Nat
  call : Call
  machine : Machine

/-- The visit obtains a method through an instance, and opens a frame to hold the instance. -/
inductive Obtains : Visit → Closure → ObjectId → Class → FrameId → Prop where
  | intro {n c m g m' o d} (hb : Binds n c m g m') (hr : Receives n c m o d) :
      Obtains ⟨n + 1, c, m⟩ g o d m'.store.frames.size

/-- The visit declares the class of a statement, finds its superclass, and opens a frame to hold the
    superclass. -/
inductive Inherits : Visit → Stmt → Env → Class → FrameId → Prop where
  | intro {n name ref methods env m c m'}
      (h : (superclassOf (some ref) env).run { m with store := m.store.define env name.lexeme .nil }
        = (.ok (some c), m')) :
      Inherits ⟨n + 1, .execute (.classDecl name (some ref) methods) env, m⟩
        (.classDecl name (some ref) methods) env c m'.store.frames.size

/-- The second visit is the first, or is made by it, directly or through others. -/
inductive Leads (a : Visit) : Visit → Prop where
  | refl : Leads a a
  | makes {n c m c' m'} (h : Leads a ⟨n + 1, c, m⟩) (hm : Makes n c m c' m') : Leads a ⟨n, c', m'⟩

theorem Leads.trans {a b c : Visit} (h : Leads a b) (h' : Leads b c) : Leads a c := by
  induction h' with
  | refl => exact h
  | makes _ hm ih => exact .makes ih hm

/-- The call runs the body of a function. -/
def Call.isInvoke : Call → Bool
  | .invoke _ _ => true
  | _ => false

/-- **The second visit belongs to the activation of the first**: it is the first, or is made by it with no
    function entered on the way. -/
inductive Within (a : Visit) : Visit → Prop where
  | refl : Within a a
  | makes {n c m c' m'} (h : Within a ⟨n + 1, c, m⟩) (hm : Makes n c m c' m')
      (hc : c'.isInvoke = false) : Within a ⟨n, c', m'⟩

theorem Within.trans {a b c : Visit} (h : Within a b) (h' : Within b c) : Within a c := by
  induction h' with
  | refl => exact h
  | makes _ hm hc ih => exact .makes ih hm hc

/-- What a visit makes has no more fuel. -/
theorem Leads.fuel_le {a b : Visit} (h : Leads a b) : b.fuel ≤ a.fuel := by
  induction h with
  | refl => exact Nat.le_refl _
  | makes _ _ ih => exact Nat.le_of_succ_le ih

/-- The visits of a run, or of many. -/
abbrev History := Visit → Prop

/-- A history has the calls that its calls make. -/
def History.Closed (H : History) : Prop :=
  ∀ n c m c' m', H ⟨n + 1, c, m⟩ → Makes n c m c' m' → H ⟨n, c', m'⟩

/-! ## 4. Frames and layers -/

/-- The call opens a frame for a region, on an environment. -/
inductive Opens : Call → Region → Env → Prop where
  | block {body env} : Opens (.execute (.block body) env) (.block (.block body)) env
  | loop {init condition increment body env} :
      Opens (.execute (.forLoop init condition increment body) env)
        (.loop (.forLoop init condition increment body)) env

/-- A visit made a function with its environment, or bound it to an instance. -/
inductive Captured (H : History) (f : Closure) : Visit → Prop where
  | created {n c m} (h : H ⟨n + 1, c, m⟩) (hc : Creates c f.code f.env) : Captured H f ⟨n + 1, c, m⟩
  | bound {n c m g m'} (h : H ⟨n + 1, c, m⟩) (hb : Binds n c m g m') (hcode : f.code = g.code)
      (henv : f.env = m'.store.frames.size :: g.env) : Captured H f ⟨n + 1, c, m⟩

/-- **Each frame of the environment of a visit is that of the current activation** of a layer: the
    visit that opened it leads to the one at hand, or to the one that made the function at hand. -/
inductive Activated (H : History) : Visit → Env → List Layer → Prop where
  | global {v} : Activated H v Store.globals []
  | scope {v n c m r env names layers} (h : H ⟨n + 1, c, m⟩) (ho : Opens c r env)
      (hv : Within ⟨n + 1, c, m⟩ v) (ha : Activated H ⟨n + 1, c, m⟩ env layers) :
      Activated H v (m.store.frames.size :: env) (⟨r, names⟩ :: layers)
  | call {v u n f args m names layers} (h : H ⟨n + 1, .invoke f args, m⟩)
      (hv : Within ⟨n + 1, .invoke f args, m⟩ v) (hf : Captured H f u)
      (ha : Activated H u f.env layers) :
      Activated H v (m.store.frames.size :: f.env) (⟨.call f.code, names⟩ :: layers)
  | super {n m s frame env names layers} (h : H ⟨n + 1, .execute s env, m⟩)
      (hd : Declares (.execute s env) m s (frame :: env))
      (ha : Activated H ⟨n + 1, .execute s env, m⟩ env layers) :
      Activated H ⟨n + 1, .execute s env, m⟩ (frame :: env) (⟨.super s, names⟩ :: layers)
  | this {u n c m f m' s names layers} (h : H ⟨n + 1, c, m⟩) (hb : Binds n c m f m') (hu : H u)
      (hd : Declares u.call u.machine s f.env) (hs : s.hasMethod f.code)
      (ha : Activated H u f.env layers) :
      Activated H ⟨n + 1, c, m⟩ (m'.store.frames.size :: f.env) (⟨.this s, names⟩ :: layers)

namespace Activated

variable {H : History} {v v' : Visit} {env : Env} {layers layers' inner outer : List Layer}

/-- An environment has a frame for each layer, and the global one. -/
theorem length (h : Activated H v env layers) : env.length = layers.length + 1 := by
  induction h with
  | global => rfl
  | scope _ _ _ _ ih | call _ _ _ _ ih | super _ _ _ ih | this _ _ _ _ _ _ ih =>
    rw [List.length_cons, List.length_cons, ih]

/-- Which names are declared makes no difference to the frames. -/
theorem regions (h : Activated H v env layers)
    (hr : layers'.map Layer.region = layers.map Layer.region) : Activated H v env layers' := by
  induction h generalizing layers' with
  | global =>
    obtain rfl := List.map_eq_nil_iff.mp hr
    exact .global
  | scope h ho hv _ ih =>
    obtain ⟨⟨r, names⟩, rest, rfl, rfl, hrest⟩ := List.map_eq_cons_iff.mp hr
    exact .scope h ho hv (ih hrest)
  | call h hv hf _ ih =>
    obtain ⟨⟨r, names⟩, rest, rfl, rfl, hrest⟩ := List.map_eq_cons_iff.mp hr
    exact .call h hv hf (ih hrest)
  | super h hd _ ih =>
    obtain ⟨⟨r, names⟩, rest, rfl, rfl, hrest⟩ := List.map_eq_cons_iff.mp hr
    exact .super h hd (ih hrest)
  | this h hb hu hd hs _ ih =>
    obtain ⟨⟨r, names⟩, rest, rfl, rfl, hrest⟩ := List.map_eq_cons_iff.mp hr
    exact .this h hb hu hd hs (ih hrest)

/-- **What a visit makes** is under way in the same activations, as long as no function is entered. -/
theorem within (h : Activated H v env layers) (hl : Within v v')
    (hr : ∀ l ∈ layers.head?, l.region.runs = true) : Activated H v' env layers := by
  cases h with
  | global => exact .global
  | scope h ho hv ha => exact .scope h ho (hv.trans hl) ha
  | call h hv hf ha => exact .call h (hv.trans hl) hf ha
  | super | this => exact nomatch hr _ rfl

/-- **The frame of a layer**: what lies behind it is the environment of the layers behind, at the visit
    that opened the frame in front or made its function. -/
theorem drop (h : Activated H v env (inner ++ outer)) :
    ∃ u, Activated H u (env.drop inner.length) outer := by
  induction inner generalizing v env with
  | nil => exact ⟨v, h⟩
  | cons l inner ih =>
    cases h with
    | scope _ _ _ ha | call _ _ _ ha | super _ _ ha | this _ _ _ _ _ ha => exact ih ha

/-- **Outside a function** lies the environment that it was made with, whoever calls it. -/
theorem function {code : Code} {names : List String}
    (h : Activated H v env (inner ++ ⟨.call code, names⟩ :: outer)) :
    ∃ f u, Captured H f u ∧ f.code = code ∧ env.drop (inner.length + 1) = f.env ∧
      Activated H u f.env outer := by
  obtain ⟨u, hu⟩ := h.drop
  rw [← List.drop_drop]
  cases hdrop : env.drop inner.length with
  | nil =>
    rw [hdrop] at hu
    cases hu
  | cons frame rest =>
    rw [hdrop] at hu
    cases hu with
    | scope _ ho _ _ => cases ho
    | call _ _ hf ha => exact ⟨_, _, hf, rfl, rfl, ha⟩

end Activated

/-! ## 5. Environments of calls -/

/-- The environment that a call runs in. A call of a value has none of its own. -/
def Call.env? : Call → Option Env
  | .evaluate _ env | .evaluateAll _ env | .execute _ env | .executeAll _ env | .turns _ _ _ env => some env
  | .apply _ _ _ | .invoke _ _ => none

/-- The environment with the frame that a call opens for what it makes, if it opens one. -/
def Call.opened? (m : Machine) : Call → Option Env
  | .execute (.block _) env | .execute (.forLoop _ _ _ _) env => some (m.store.frames.size :: env)
  | .invoke f _ => some (m.store.frames.size :: f.env)
  | _ => none

section Environments

variable {H : History} {v : Visit} {n : Nat} {c c' : Call} {m m' : Machine} {env env' inner : Env}
  {layers : List Layer}

theorem Opens.opened? {r : Region} (h : Opens c r env) :
    c.opened? m = some (m.store.frames.size :: env) ∧ c.env? = some env := by
  cases h <;> exact ⟨rfl, rfl⟩

/-- What is made by a call that opens a frame runs behind that frame. -/
theorem Makes.env_of_opened (h : Makes n c m c' m') (ho : c.opened? m = some inner) :
    c'.env? = some inner := by
  cases h with
  | block hframe | loopStart hframe | bareTurns hframe | body hframe =>
    cases hframe
    exact ho
  | loopTurns hframe hs =>
    cases hframe
    exact ho
  | _ => cases ho

/-- What is made by a call runs in the environment of the call, or behind frames in front of it. -/
theorem Makes.env_suffix (h : Makes n c m c' m') (hc : c.isInvoke = false) (hc' : c'.isInvoke = false)
    (henv : c'.env? = some env') : ∃ env, c.env? = some env ∧ env <:+ env' := by
  cases h with
  | block hframe | loopStart hframe | bareTurns hframe =>
    cases hframe
    cases henv
    exact ⟨_, rfl, List.suffix_cons _ _⟩
  | loopTurns hframe hs =>
    cases hframe
    cases henv
    exact ⟨_, rfl, List.suffix_cons _ _⟩
  | body => cases hc
  | function | initializer => cases hc'
  | applied => cases henv
  | _ =>
    cases henv
    exact ⟨_, rfl, List.suffix_refl _⟩

theorem Within.not_invoke {a b : Visit} (h : Within a b) : b = a ∨ b.call.isInvoke = false := by
  cases h with
  | refl => exact .inl rfl
  | makes _ _ hc => exact .inr hc

/-- **What belongs to the activation of a visit that opens a frame** runs behind that frame. -/
theorem Within.env_suffix (h : Within ⟨n, c, m⟩ v) (ho : c.opened? m = some inner)
    (henv : v.call.env? = some env) : v = ⟨n, c, m⟩ ∨ inner <:+ env := by
  induction h generalizing env with
  | refl => exact .inl rfl
  | @makes k c₁ m₁ c₂ m₂ hwithin hm hc ih =>
    refine .inr ?_
    rcases hwithin.not_invoke with heq | hinvoke
    · cases heq
      rw [hm.env_of_opened ho] at henv
      exact Option.some.inj henv ▸ List.suffix_refl _
    · obtain ⟨env₁, henv₁, hsuffix⟩ := hm.env_suffix hinvoke hc henv
      rcases ih henv₁ with heq | hinner
      · cases heq
        rw [hm.env_of_opened ho] at henv
        exact Option.some.inj henv ▸ List.suffix_refl _
      · exact hinner.trans hsuffix

/-- **There is but one environment of the current activations** of some layers: that in which the visit
    runs. -/
theorem Activated.eq_env (h : Activated H v env layers) (hv : v.call.env? = some env)
    (hr : ∀ l ∈ layers.head?, l.region.runs = true) (h' : Activated H v env' layers) : env' = env := by
  have hlength : env'.length = env.length := h'.length.trans h.length.symm
  cases h' with
  | global =>
    cases h
    rfl
  | super | this => exact nomatch hr _ rfl
  | scope _ ho hwithin _ =>
    obtain ⟨hopened, hown⟩ := ho.opened?
    rcases hwithin.env_suffix hopened hv with rfl | hsuffix
    · rw [hown] at hv
      cases hv
      exact absurd hlength (Nat.succ_ne_self _)
    · exact hsuffix.eq_of_length hlength
  | call _ hwithin _ _ =>
    rcases hwithin.env_suffix rfl hv with rfl | hsuffix
    · cases hv
    · exact hsuffix.eq_of_length hlength

end Environments

end Lox
