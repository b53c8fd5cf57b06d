import Lox.Proofs.Machine.Parts

/-!
# Runs without faults

The induction on fuel that carries the invariant through a run.

* `SafeAt w k n`: no call with the fuel `n` is stopped by a fault, and each leaves a good machine.
* `Makes.ok`: **a call of what fits makes calls of what fits**, if those it makes before are safe.
  This is where frames are opened, and where layers and frames are kept in step.
* `safeAt`: it holds of every fuel; one lemma a function goes through the calls that the function makes
  and the parts it runs itself.
-/

namespace Lox

variable {w : World} {k n : Nat} {m : Machine} {v : Visit}

/-! ## 1. What calls come to -/

/-- The value that leaves a function with a signal. -/
def SignalOk (w : World) (k : Nat) (m : Machine) (s : Signal) : Prop :=
  ∀ v, s = .ret v → ValueOk w k m v

/-- **What a statement comes to** that starts on the machine `m`: a signal, and its name is bound. -/
structure FinishOk (w : World) (k : Nat) (m : Machine) (s : Stmt) (env : Env) (m' : Machine)
    (r : Signal) : Prop where
  signal : SignalOk w k m' r
  declared : ∀ name, s.declared? = some name → BoundSince m env name m'

/-- A call with the fuel `n` is safe. -/
def SafeCall (w : World) (k n : Nat) (m : Machine) : Call → Prop
  | .evaluate e env => Safe w k m (evaluate n e env) (ValueOk w k)
  | .evaluateAll es env =>
    Safe w k m (evaluateAll n es env) (fun m' vs => ∀ v ∈ vs, ValueOk w k m' v)
  | .apply f args paren => Safe w k m (apply n f args paren) (ValueOk w k)
  | .invoke f args => Safe w k m (invoke n f args) (ValueOk w k)
  | .execute s env => Safe w k m (execute n s env) (FinishOk w k m s env)
  | .executeAll ss env => Safe w k m (executeAll n ss env) (SignalOk w k)
  | .turns condition increment body env =>
    Safe w k m (turns n condition increment body env) (SignalOk w k)

/-- **All calls of the history with the fuel `n` are safe**, if they are about what fits. -/
def SafeAt (w : World) (k n : Nat) : Prop :=
  ∀ c m, w.calls ⟨n, c, m⟩ → Good w k m → CallOk w k m ⟨n, c, m⟩ c → SafeCall w k n m c

/-! ## 2. Parts of what fits -/

section Parts

variable {node child : Node} {env : Env}

theorem Placed.declared {name : String} (h : Placed w k m v node env)
    (hi : ∀ p, Inside node p child (p.declare name)) : Placed w k m v child env := by
  obtain ⟨program, p, hp⟩ := h
  exact ⟨program, p.declare name, hp.inside (hi p) (p.declare_regions name)⟩

theorem Ready.same (h : Ready w k m v node env) (hi : ∀ p, Inside node p child p) :
    Ready w k m v child env := by
  obtain ⟨program, p, hp⟩ := h
  exact ⟨program, p, hp.inside (hi p) rfl⟩

/-- A part in a scope of its own, with a frame for it that binds the names in front of the part. -/
theorem ReadyAt.pushed {program : List Stmt} {p : Place} {r : Region} {names : List String}
    {f : FrameId} (hp : ReadyAt w k m v program node p env)
    (hi : Inside node p child (p.push r names)) {u : Visit}
    (ha : Activated w.calls u (f :: env) (⟨r, names⟩ :: p.layers)) (hr : r.Holds w.calls m.store f env p.layers)
    (hf : f < m.store.frames.size) (hn : ∀ n ∈ names, (m.store.frame f).binds n = true) :
    Ready w k m u child (f :: env) :=
  ⟨program, p.push r names, ⟨hp.accepted, hp.loaded, .inside hp.occurs hi, ha, .layer hr hp.bound⟩,
    .layer hf (fun n hmem => .inl (hn n hmem)) (hp.filled.imp fun _ _ hw => hw.inside hi)⟩

end Parts

/-- What a new frame is. -/
theorem newFrame_ok (h : Good w k m) {m' : Machine} {env inner : Env} {b : Bindings Value}
    (hb : ∀ name v, b.find? name = some v → ValueOk w k m v)
    (hrun : (newFrame env b).run m = (.ok inner, m')) :
    After w k m m' ∧ inner = m.store.frames.size :: env ∧
      m.store.frames.size < m'.store.frames.size ∧ m'.store.frame m.store.frames.size = b := by
  cases hrun
  refine ⟨.push h hb, rfl, ?_, by rw [Store.frame_push, if_pos rfl]⟩
  rw [Array.size_push]
  exact Nat.lt_succ_self _

theorem emptyFrame_ok (h : Good w k m) {m' : Machine} {env inner : Env}
    (hrun : (newFrame env []).run m = (.ok inner, m')) :
    After w k m m' ∧ inner = m.store.frames.size :: env ∧
      m.store.frames.size < m'.store.frames.size := by
  obtain ⟨hafter, hinner, hsize, -⟩ := newFrame_ok h (fun _ _ hv => by cases hv) hrun
  exact ⟨hafter, hinner, hsize⟩

theorem parameterBindings_ok {f : Closure} {args : List Value} (h : ∀ v ∈ args, ValueOk w k m v) :
    ∀ name v, (parameterBindings f args).find? name = some v → ValueOk w k m v := by
  intro name v hv
  exact h v (List.of_mem_zip (Bindings.mem_of_find?_ofPairs hv)).2

theorem Bindings.binds_ofPairs {α : Type} {ps : List (String × α)} {n : String}
    (h : n ∈ ps.map Prod.fst) : (Bindings.ofPairs ps).binds n = true := by
  -- over the bindings that the fold has made so far
  have hfold : ∀ (ps : List (String × α)) (b : Bindings α),
      n ∈ ps.map Prod.fst ∨ b.binds n = true →
        Bindings.binds (ps.foldl (fun b p => b.put p.1 p.2) b) n = true := by
    intro ps
    induction ps with
    | nil => exact fun b hb => hb.resolve_left List.not_mem_nil
    | cons q rest ih =>
      intro b hb
      refine ih _ ?_
      rw [List.map_cons, List.mem_cons] at hb
      rw [Bindings.binds_put]
      rcases hb with (rfl | hrest) | hb
      · exact .inr (.inl rfl)
      · exact .inl hrest
      · exact .inr (.inr hb)
  exact hfold ps [] (.inl h)

/-- **The frame of a call** binds all parameters, if there are as many arguments. -/
theorem parameterBindings_binds {f : Closure} {args : List Value}
    (h : f.code.arity = args.length) :
    ∀ n ∈ f.code.params.map Token.lexeme, (parameterBindings f args).binds n = true := by
  intro n hn
  refine Bindings.binds_ofPairs ?_
  rw [List.map_fst_zip]
  · exact hn
  · rw [List.length_map]
    exact Nat.le_of_eq h

/-- The statements of a block, with a frame for them. -/
theorem block_ok {env : Env} {body : List Stmt} {m' : Machine}
    (hv : v = ⟨n + 1, .execute (.block body) env, m⟩) (hcall : w.calls v) (hafter : After w k m m')
    (hsize : m.store.frames.size < m'.store.frames.size)
    (hp : Ready w k m v (.stmt (.block body)) env) :
    Lined w k m' v body (m.store.frames.size :: env) := by
  subst hv
  obtain ⟨program, p, hp⟩ := hp.later hafter.later
  refine ⟨?_, ?_⟩
  · rintro f ⟨_, heq⟩
    cases heq
    exact hsize
  · rintro before s rest rfl k'' m'' hl hbound
    have hp := hp.later hl
    exact hp.pushed .block (.scope hcall .block .refl hp.activated) trivial
      (Nat.lt_of_lt_of_le hsize hl.keeps.size) (hbound _ ⟨_, rfl⟩)

/-- The statements of a function, with a frame for its parameters and for them. -/
theorem body_ok {f : Closure} {args : List Value} {m' : Machine}
    (hv : v = ⟨n + 1, .invoke f args, m⟩) (hcall : w.calls v) (hafter : After w k m m')
    (hsize : m.store.frames.size < m'.store.frames.size)
    (hframe : m'.store.frame m.store.frames.size = parameterBindings f args)
    (hf : FunctionOk w k m f) (harity : f.code.arity = args.length) :
    Lined w k m' v f.code.body (m.store.frames.size :: f.env) := by
  subst hv
  obtain ⟨u, program, p, hcaptured, hp, -, hthrough⟩ := hf.later hafter.later
  refine ⟨?_, ?_⟩
  · rintro f ⟨_, heq⟩
    cases heq
    exact hsize
  · intro before s rest heq k'' m'' hl hbound
    have hp := hp.later hl
    have hparams := parameterBindings_binds harity
    obtain ⟨name, ⟨params, body⟩, env, init⟩ := f
    obtain rfl : body = before ++ s :: rest := heq
    refine hp.pushed .body (.call hcall .refl hcaptured hp.activated)
      (hl.keeps.throughInstance hthrough)
      (Nat.lt_of_lt_of_le hsize hl.keeps.size) fun n hn => ?_
    rcases List.mem_append.mp hn with hn | hn
    · refine hl.keeps.binds _ n ?_
      rw [hframe]
      exact hparams n hn
    · exact hbound _ ⟨_, rfl⟩ n hn

section Loops

variable {init : Option Stmt} {condition : Expr} {increment : Option Expr} {body : Stmt}
  {env : Env} {m' : Machine}

theorem loopStart_ok {start : Stmt}
    (hv : v = ⟨n + 1, .execute (.forLoop (some start) condition increment body) env, m⟩)
    (hcall : w.calls v) (hafter : After w k m m')
    (hsize : m.store.frames.size < m'.store.frames.size)
    (hp : Ready w k m v (.stmt (.forLoop (some start) condition increment body)) env) :
    Ready w k m' v (.stmt start) (m.store.frames.size :: env) := by
  subst hv
  obtain ⟨program, p, hp⟩ := hp.later hafter.later
  exact hp.pushed .loopStart (.scope hcall .loop .refl hp.activated) trivial hsize
    fun n hn => absurd hn List.not_mem_nil

/-- The turns of a `for` loop, with one frame for all of them. -/
theorem loopTurns_ok
    (hv : v = ⟨n + 1, .execute (.forLoop init condition increment body) env, m⟩)
    (hcall : w.calls v) (hafter : After w k m m')
    (hsize : m.store.frames.size < m'.store.frames.size)
    (hbound : ∀ n ∈ declaredBy init.toList,
      (m'.store.frame m.store.frames.size).binds n = true)
    (hp : Ready w k m v (.stmt (.forLoop init condition increment body)) env) :
    CallOk w k m' v (.turns condition increment body (m.store.frames.size :: env)) := by
  subst hv
  obtain ⟨program, p, hp⟩ := hp.later hafter.later
  refine ⟨?_, ?_, ?_⟩
  · exact hp.pushed .loopCondition (.scope hcall .loop .refl hp.activated) trivial hsize hbound
  · rintro i rfl
    exact hp.pushed .loopIncrement (.scope hcall .loop .refl hp.activated) trivial hsize hbound
  · exact hp.pushed .loopBody (.scope hcall .loop .refl hp.activated) trivial hsize hbound

end Loops

/-- **The statements behind the first** of some, once that is done. -/
theorem Lined.behind {s : Stmt} {rest : List Stmt} {env : Env} {m' : Machine}
    (h : Lined w k m v (s :: rest) env) (hl : Later k k m m')
    (hs : ∀ name, s.declared? = some name → BoundSince m env name m') :
    Lined w k m' v rest env where
  valid f hf := Nat.lt_of_lt_of_le (h.valid f hf) hl.keeps.size
  ready before t after heq k'' m'' hl' hbound := by
    refine h.ready (s :: before) t after (by rw [heq]; rfl) k'' m'' (hl.trans hl') ?_
    intro f hf n hn
    rcases List.mem_filterMap.mp hn with ⟨t', ht', hd⟩
    rcases List.mem_cons.mp ht' with rfl | ht'
    · exact hl'.keeps.binds f n (hs n hd f hf (h.valid f hf))
    · exact hbound f hf n (List.mem_filterMap.mpr ⟨t', ht', hd⟩)

/-- The first of some statements. -/
theorem Lined.first {s : Stmt} {rest : List Stmt} {env : Env} (h : Lined w k m v (s :: rest) env) :
    Ready w k m v (.stmt s) env :=
  h.ready [] s rest rfl k m ⟨.refl _, Nat.le_refl k, fun _ _ => rfl⟩
    fun _ _ _ hn => absurd hn List.not_mem_nil

/-- An initializer takes as many arguments as its class. -/
theorem Class.arity_of_initializer {c : Class} {f : Closure} {a : Nat}
    (hf : c.method? initializerName = some f) (ha : (Value.ofClass c).arity? = some a) :
    f.code.arity = a := by
  rw [Value.arity?, Class.arity, hf] at ha
  exact Option.some.inj ha

/-! ## 3. The calls that a call makes -/

section Made

variable {c c' : Call} {m' m'' : Machine}

/-- A visit of the history that another makes. -/
structure Made (w : World) (v u : Visit) : Prop where
  visited : w.calls u
  within : u.call.isInvoke = false → Within v u

theorem SafeAt.evaluated (hs : SafeAt w k n) {e : Expr} {env : Env} {a : Value}
    (hmade : Made w v ⟨n, .evaluate e env, m⟩) (h : Good w k m) (hp : Ready w k m v (.expr e) env)
    (hrun : (evaluate n e env).run m = (.ok a, m')) : After w k m m' ∧ ValueOk w k m' a :=
  Safe.of_run (hs _ m hmade.visited h (hp.within (fun _ => nofun) (hmade.within rfl))) hrun

theorem SafeAt.executed (hs : SafeAt w k n) {s : Stmt} {env : Env} {r : Signal}
    (hmade : Made w v ⟨n, .execute s env, m⟩) (h : Good w k m) (hp : Ready w k m v (.stmt s) env)
    (hrun : (execute n s env).run m = (.ok r, m')) : After w k m m' ∧ FinishOk w k m s env m' r :=
  Safe.of_run (hs _ m hmade.visited h (hp.within (fun _ => nofun) (hmade.within rfl))) hrun

/-- **A call of what fits makes calls of what fits.** -/
theorem Makes.ok (hs : SafeAt w k n) (hclosed : w.calls.Closed) (hv : v = ⟨n + 1, c, m⟩)
    (hcall : w.calls v) (h : Good w k m) (hc : CallOk w k m v c) (hm : Makes n c m c' m') :
    After w k m m' ∧ CallOk w k m' v c' := by
  -- the calls that were made before are in the history, and safe
  have made : ∀ {c' m'}, Makes n c m c' m' → Made w v ⟨n, c', m'⟩ := by
    intro c' m' hm
    subst hv
    exact ⟨hclosed n c m c' m' hcall hm, .makes .refl hm⟩
  cases hm with
  -- expressions
  | group => exact ⟨.refl h, Ready.same hc fun _ => .group⟩
  | operand => exact ⟨.refl h, Ready.same hc fun _ => .operand⟩
  | binaryLeft => exact ⟨.refl h, Ready.same hc fun _ => .binaryLeft⟩
  | binaryRight hl =>
    have hleft := hs.evaluated (made .binaryLeft) h (Ready.same hc fun _ => .binaryLeft) hl
    exact ⟨hleft.1, (Ready.same hc fun _ => .binaryRight).later hleft.1.later⟩
  | logicalLeft => exact ⟨.refl h, Ready.same hc fun _ => .logicalLeft⟩
  | logicalRight hl _ =>
    have hleft := hs.evaluated (made .logicalLeft) h (Ready.same hc fun _ => .logicalLeft) hl
    exact ⟨hleft.1, (Ready.same hc fun _ => .logicalRight).later hleft.1.later⟩
  | choiceCondition => exact ⟨.refl h, Ready.same hc fun _ => .choiceCondition⟩
  | choiceYes hcond _ =>
    have hfirst :=
      hs.evaluated (made .choiceCondition) h (Ready.same hc fun _ => .choiceCondition) hcond
    exact ⟨hfirst.1, (Ready.same hc fun _ => .choiceYes).later hfirst.1.later⟩
  | choiceNo hcond _ =>
    have hfirst :=
      hs.evaluated (made .choiceCondition) h (Ready.same hc fun _ => .choiceCondition) hcond
    exact ⟨hfirst.1, (Ready.same hc fun _ => .choiceNo).later hfirst.1.later⟩
  | assigned => exact ⟨.refl h, Ready.same hc fun _ => .assigned⟩
  | callee => exact ⟨.refl h, Ready.same hc fun _ => .callee⟩
  | arguments hf =>
    have hcallee := hs.evaluated (made .callee) h (Ready.same hc fun _ => .callee) hf
    exact ⟨hcallee.1, fun e he =>
      (Ready.same hc fun _ => .argument he).later hcallee.1.later⟩
  | applied hf hargs harity =>
    have hcallee := hs.evaluated (made .callee) h (Ready.same hc fun _ => .callee) hf
    have hmade := made (.arguments hf)
    have hplaced : CallOk w k _ ⟨n, .evaluateAll _ _, _⟩ (.evaluateAll _ _) := fun e he =>
      ((Ready.same hc fun _ => .argument he).later hcallee.1.later).within (fun _ => nofun)
        (hmade.within rfl)
    have hvalues := Safe.of_run (hs _ _ hmade.visited hcallee.1.good hplaced) hargs
    exact ⟨hcallee.1.trans hvalues.1, hcallee.2.later hvalues.1.later, hvalues.2, harity⟩
  | getObject => exact ⟨.refl h, Ready.same hc fun _ => .getObject⟩
  | setObject => exact ⟨.refl h, Ready.same hc fun _ => .setObject⟩
  | setValue ho =>
    have hobject := hs.evaluated (made .setObject) h (Ready.same hc fun _ => .setObject) ho
    exact ⟨hobject.1, (Ready.same hc fun _ => .setValue).later hobject.1.later⟩
  | first => exact ⟨.refl h, hc _ List.mem_cons_self⟩
  | others he =>
    have hfirst := hs.evaluated (made .first) h (hc _ List.mem_cons_self) he
    exact ⟨hfirst.1, fun e hmem => (hc e (List.mem_cons_of_mem _ hmem)).later hfirst.1.later⟩
  -- calls of values
  | function => exact ⟨.refl h, hc.1, hc.2.1, Option.some.inj hc.2.2⟩
  | initializer hf ho hb =>
    cases ho
    have hobject : After w k m { m with store := m.store.newObject.2 } :=
      .of_same h (fun _ => rfl) rfl (Store.fields_newObject m.store) rfl
    have hclass := ClassOk.later hc.1 hobject.later
    have hbound := Safe.of_run (bindMethod_safe hobject.good hclass hclass hf (hv ▸ hcall)
      (.initializer rfl hf) (.initializer rfl)) hb
    have hafter := hobject.trans hbound.1
    refine ⟨hafter, hbound.2.2, fun v hv => (hc.2.1 v hv).later hafter.later, ?_⟩
    rw [hbound.2.1]
    exact Class.arity_of_initializer hf hc.2.2
  | body hframe =>
    obtain ⟨hafter, rfl, hsize, hbindings⟩ := newFrame_ok h (parameterBindings_ok hc.2.1) hframe
    exact ⟨hafter, body_ok hv hcall hafter hsize hbindings hc.1 hc.2.2⟩
  -- statements
  | expression => exact ⟨.refl h, Ready.same hc fun _ => .expression⟩
  | declared =>
    obtain ⟨program, p, hp⟩ := hc
    exact ⟨.refl h, program, _, hp.initializer⟩
  | branchCondition => exact ⟨.refl h, Ready.same hc fun _ => .branchCondition⟩
  | branchYes hcond _ =>
    have hfirst :=
      hs.evaluated (made .branchCondition) h (Ready.same hc fun _ => .branchCondition) hcond
    exact ⟨hfirst.1, (Ready.same hc fun _ => .branchYes).later hfirst.1.later⟩
  | branchNo hcond _ =>
    have hfirst :=
      hs.evaluated (made .branchCondition) h (Ready.same hc fun _ => .branchCondition) hcond
    exact ⟨hfirst.1, (Ready.same hc fun _ => .branchNo).later hfirst.1.later⟩
  | whileTurns =>
    exact ⟨.refl h, Ready.same hc fun _ => .whileCondition, fun e he => (nomatch he),
      Ready.same hc fun _ => .whileBody⟩
  | loopStart hframe =>
    obtain ⟨hafter, rfl, hsize⟩ := emptyFrame_ok h hframe
    exact ⟨hafter, loopStart_ok hv hcall hafter hsize hc⟩
  | loopTurns hframe hstart =>
    have hmade := made (.loopStart hframe)
    obtain ⟨hafter, rfl, hsize⟩ := emptyFrame_ok h hframe
    have hstarted :=
      hs.executed hmade hafter.good (loopStart_ok hv hcall hafter hsize hc) hstart
    have hall := hafter.trans hstarted.1
    refine ⟨hall, loopTurns_ok hv hcall hall
      (Nat.lt_of_lt_of_le hsize hstarted.1.keeps.size) (fun n hn => ?_) hc⟩
    obtain ⟨s, hmem, hd⟩ := List.mem_filterMap.mp hn
    obtain rfl := List.mem_singleton.mp hmem
    exact hstarted.2.declared n hd _ ⟨_, rfl⟩ hsize
  | bareTurns hframe =>
    obtain ⟨hafter, rfl, hsize⟩ := emptyFrame_ok h hframe
    exact ⟨hafter, loopTurns_ok hv hcall hafter hsize (fun n hn => absurd hn List.not_mem_nil) hc⟩
  | block hframe =>
    obtain ⟨hafter, rfl, hsize⟩ := emptyFrame_ok h hframe
    exact ⟨hafter, block_ok hv hcall hafter hsize hc⟩
  | returned => exact ⟨.refl h, Ready.same hc fun _ => .returned⟩
  | firstStatement => exact ⟨.refl h, hc.first⟩
  | otherStatements hfirst =>
    have hdone := hs.executed (made .firstStatement) h hc.first hfirst
    exact ⟨hdone.1, hc.behind hdone.1.later hdone.2.declared⟩
  -- turns of a loop
  | turnCondition => exact ⟨.refl h, hc.1⟩
  | turnBody hcond _ =>
    have hfirst := hs.evaluated (made .turnCondition) h hc.1 hcond
    exact ⟨hfirst.1, hc.2.2.later hfirst.1.later⟩
  | turnIncrement hcond ha hbody _ =>
    have hfirst := hs.evaluated (made .turnCondition) h hc.1 hcond
    have hsecond := hs.executed (made (.turnBody hcond ha)) hfirst.1.good
      (hc.2.2.later hfirst.1.later) hbody
    have hafter := hfirst.1.trans hsecond.1
    exact ⟨hafter, (hc.2.1 _ rfl).later hafter.later⟩
  | nextTurn hcond ha hbody hr hinc =>
    have hfirst := hs.evaluated (made .turnCondition) h hc.1 hcond
    have hsecond := hs.executed (made (.turnBody hcond ha)) hfirst.1.good
      (hc.2.2.later hfirst.1.later) hbody
    have hafter := hfirst.1.trans hsecond.1
    have hthird := hs.evaluated (made (.turnIncrement hcond ha hbody hr)) hafter.good
      ((hc.2.1 _ rfl).later hafter.later) hinc
    have hall := hafter.trans hthird.1
    exact ⟨hall, CallOk.later (c := .turns _ _ _ _) hc hall.later⟩
  | nextBareTurn hcond ha hbody _ =>
    have hfirst := hs.evaluated (made .turnCondition) h hc.1 hcond
    have hsecond := hs.executed (made (.turnBody hcond ha)) hfirst.1.good
      (hc.2.2.later hfirst.1.later) hbody
    have hall := hfirst.1.trans hsecond.1
    exact ⟨hall, CallOk.later (c := .turns _ _ _ _) hc hall.later⟩

end Made

/-! ## 4. Each function -/

section Functions

/-- The calls that a call makes are safe. -/
def MadeSafe (w : World) (k n : Nat) (m : Machine) (c : Call) : Prop :=
  ∀ c' m', Makes n c m c' m' → SafeCall w k n m' c'

theorem evaluate_safe {e : Expr} {env : Env} (run : MadeSafe w k n m (.evaluate e env))
    (hcall : w.calls ⟨n + 1, .evaluate e env, m⟩) (h : Good w k m)
    (hc : Ready w k m ⟨n + 1, .evaluate e env, m⟩ (.expr e) env) :
    Safe w k m (evaluate (n + 1) e env) (ValueOk w k) := by
  obtain ⟨program, p, hp⟩ := hc
  have hshaped : e.Shaped Token.Spelled := hp.occurs.shaped hp.loaded.shaped
  cases e with
  | literal l => cases l <;> exact .of_ok rfl (.refl h) trivial
  | group e => exact run _ _ .group
  | unary op e =>
    refine Safe.bind (run _ _ .operand) fun v m' _ hafter _ => ?_
    exact (unaryValue_fine hshaped.1).safe hafter.good
  | binary l op r =>
    refine Safe.bind (run _ _ .binaryLeft) fun a m₁ ha h₁ _ => ?_
    refine Safe.bind (run _ _ (.binaryRight ha)) fun b m₂ _ h₂ hb => ?_
    exact (binaryValue_fine hshaped.1 hb).safe h₂.good
  | logical l op r =>
    refine Safe.bind (run _ _ .logicalLeft) fun a m₁ ha h₁ hv => ?_
    by_cases hd : decides op a = true
    · rw [if_pos hd]
      exact .pure h₁.good hv
    · rw [if_neg hd]
      exact run _ _ (.logicalRight ha (Bool.eq_false_iff.mpr hd))
  | conditional c yes no =>
    refine Safe.bind (run _ _ .choiceCondition) fun a m₁ ha h₁ _ => ?_
    by_cases ht : a.isTruthy = true
    · rw [if_pos ht]
      exact run _ _ (.choiceYes ha ht)
    · rw [if_neg ht]
      exact run _ _ (.choiceNo ha (Bool.eq_false_iff.mpr ht))
  | read ref | this ref => exact (lookUp_safe h hp.toPlacedAt rfl).mono fun m' v hv => hv.1 ▸ hv.2
  | assign ref e =>
    refine Safe.bind (run _ _ .assigned) fun v m₁ _ h₁ hv => ?_
    refine (rebind_safe h₁.good (hp.later h₁.later).toPlacedAt rfl hshaped.1.plain hv).bind
      fun _ m₂ _ h₂ _ => ?_
    exact .pure h₂.good (hv.later h₂.later)
  | call callee paren args =>
    refine Safe.bind (run _ _ .callee) fun f m₁ hf h₁ _ => ?_
    refine Safe.bind (run _ _ (.arguments hf)) fun vs m₂ hvs h₂ _ => ?_
    cases harity : f.arity? with
    | none => exact .raise h₂.good
    | some a =>
      by_cases ha : vs.length = a
      · have hrun := run _ _ (.applied hf hvs (ha ▸ harity))
        show Safe w k m₂ (if vs.length = a then apply n f vs paren
          else raise (.arity a vs.length paren.pos)) (ValueOk w k)
        rw [if_pos ha]
        exact hrun
      · show Safe w k m₂ (if vs.length = a then apply n f vs paren
          else raise (.arity a vs.length paren.pos)) (ValueOk w k)
        rw [if_neg ha]
        exact .raise h₂.good
  | get object name =>
    refine Safe.bind (run _ _ .getObject) fun o m₁ ho h₁ hv => ?_
    cases o with
    | object o c => exact property_safe h₁.good hv hcall ho
    | _ => exact .raise h₁.good
  | set object name e =>
    refine Safe.bind (run _ _ .setObject) fun o m₁ ho h₁ hv => ?_
    cases o with
    | object o c =>
      refine Safe.bind (run _ _ (.setValue ho)) fun v m₂ _ h₂ hv => ?_
      have hsafe : Safe w k m₂ (modifyStore (·.setField o name.lexeme v)) (fun _ _ => True) :=
        .of_ok rfl (.setField h₂.good hv) trivial
      exact hsafe.bind fun _ m₃ _ h₃ _ => .pure h₃.good (hv.later h₃.later)
    | _ => exact .raise h₁.good
  | super ref method => exact superMethod_safe h hp.toPlacedAt hcall
  | lambda code =>
    exact newFunction_safe h
      ⟨_, program, _, .created hcall .lambda, hp.inside .lambda rfl, (fun hinit => nomatch hinit),
        fun decl hd => absurd hd (hp.occurs.methodical.2 decl)⟩

theorem evaluateAll_safe {es : List Expr} {env : Env} (run : MadeSafe w k n m (.evaluateAll es env))
    (h : Good w k m) :
    Safe w k m (evaluateAll (n + 1) es env) (fun m' vs => ∀ v ∈ vs, ValueOk w k m' v) := by
  cases es with
  | nil => exact .pure h fun v hv => absurd hv List.not_mem_nil
  | cons e rest =>
    refine Safe.bind (run _ _ .first) fun v m₁ hv h₁ hok => ?_
    refine Safe.bind (run _ _ (.others hv)) fun vs m₂ _ h₂ hvs => ?_
    exact .pure h₂.good (List.forall_mem_cons.mpr ⟨hok.later h₂.later, hvs⟩)

theorem apply_safe {f : Value} {args : List Value} {paren : Token}
    (run : MadeSafe w k n m (.apply f args paren)) (hcall : w.calls ⟨n + 1, .apply f args paren, m⟩)
    (h : Good w k m) (hc : CallOk w k m v (.apply f args paren)) :
    Safe w k m (apply (n + 1) f args paren) (ValueOk w k) := by
  obtain ⟨hf, hargs, harity⟩ := hc
  cases f with
  | native f => exact native_safe h paren (Option.some.inj harity).symm
  | function i f => exact run _ _ .function
  | ofClass c =>
    have hnew : After w k m { m with store := m.store.newObject.2 } :=
      .of_same h (fun _ => rfl) rfl (Store.fields_newObject m.store) rfl
    have hobject : Safe w k m (allocate Store.newObject)
        (fun m' _ => m' = { m with store := m.store.newObject.2 }) := .of_ok rfl hnew rfl
    refine hobject.bind fun o m₁ ho h₁ _ => ?_
    have hclass : ClassOk w k m₁ c := ClassOk.later hf h₁.later
    cases hinit : c.method? initializerName with
    | none => exact .pure h₁.good hclass
    | some g =>
      have hbind := bindMethod_safe h₁.good hclass hclass hinit hcall (.initializer ho hinit)
        (.initializer ho)
      refine hbind.bind fun bound m₂ hb h₂ _ => ?_
      refine Safe.bind (run _ _ (.initializer hinit ho hb)) fun _ m₃ _ h₃ _ => ?_
      exact .pure h₃.good ((hclass.later h₂.later).later h₃.later)
  | nil | bool | number | text | object => exact .raise h

theorem invoke_safe {f : Closure} {args : List Value} (run : MadeSafe w k n m (.invoke f args))
    (h : Good w k m) (hc : CallOk w k m v (.invoke f args)) :
    Safe w k m (invoke (n + 1) f args) (ValueOk w k) := by
  obtain ⟨⟨_, program, p, -, hp, -⟩, hargs, -⟩ := hc
  have henv : 0 < f.env.length := by
    rw [hp.activated.length]
    exact Nat.succ_pos _
  have hframe : Safe w k m (newFrame f.env (parameterBindings f args)) (fun _ _ => True) :=
    .of_ok rfl (.push h (parameterBindings_ok hargs)) trivial
  refine hframe.bind fun env m₁ henv' h₁ _ => ?_
  refine Safe.bind (run _ _ (.body henv')) fun s m₂ _ h₂ hs => ?_
  exact returned_safe h₂.good henv hs

/-- A signal without a value. -/
theorem signal_safe {s : Signal} (h : Good w k m) (hs : ∀ v, s ≠ .ret v) :
    Safe w k m (pure s) (SignalOk w k) := .pure h fun v hv => absurd hv (hs v)

/-- A statement that declares no name. -/
theorem Safe.finished {x : Run Signal} {s : Stmt} {env : Env} (hd : s.declared? = none)
    (h : Safe w k m x (SignalOk w k)) : Safe w k m x (FinishOk w k m s env) :=
  h.mono fun _ _ hr => ⟨hr, fun name hn => by rw [hd] at hn; cases hn⟩

/-- **A function statement**: the function can mean itself, since its name is bound with it. -/
theorem funDecl_safe {name : Token} {code : Code} {env : Env}
    (hcall : w.calls ⟨n + 1, .execute (.funDecl (.mk name code)) env, m⟩) (h : Good w k m)
    (hc : Ready w k m ⟨n + 1, .execute (.funDecl (.mk name code)) env, m⟩
      (.stmt (.funDecl (.mk name code))) env) :
    Safe w k m (execute (n + 1) (.funDecl (.mk name code)) env)
      (FinishOk w k m (.funDecl (.mk name code)) env) := by
  obtain ⟨program, p, hp⟩ := hc
  have hshaped : (Stmt.funDecl (.mk name code)).Shaped Token.Spelled :=
    hp.occurs.shaped hp.loaded.shaped
  have hnew : Safe w k m (newFunction ⟨some name.lexeme, code, env, false⟩)
      (fun _ u => ∃ i, u = .function i ⟨some name.lexeme, code, env, false⟩) :=
    .of_ok (newFunction_run _) (.newIdentity h) ⟨_, rfl⟩
  refine hnew.bind fun u m₁ _ h₁ hu => ?_
  obtain ⟨i, rfl⟩ := hu
  have hp₁ := hp.later h₁.later
  have hdefine : Safe w k m₁ (modifyStore (·.define env name.lexeme
      (.function i ⟨some name.lexeme, code, env, false⟩)))
      (fun m' _ => BoundSince m env name.lexeme m') := by
    refine .of_ok rfl (.define h₁.good hshaped.1.plain fun hl => ?_) (.define env _ _ h₁.keeps)
    have hfilled := hp₁.filled_declare hl.keeps (.define env name.lexeme _ (.refl _))
    refine ⟨_, program, (p.declare name.lexeme).inFunction .function, .created hcall .function,
      ⟨?_, ?_⟩, (fun hinit => nomatch hinit),
      fun decl hd => absurd (headsClass_declare hd) (hp.occurs.methodical.2 decl)⟩
    · exact (hp₁.toPlacedAt.later hl).inside .function (p.declare_regions name.lexeme)
    · exact hfilled.imp fun _ _ hw => hw.inside .function
  refine hdefine.bind fun _ m₂ _ h₂ hbound => .pure h₂.good ⟨(fun _ h => nomatch h), fun a ha => ?_⟩
  cases ha
  exact hbound

theorem execute_safe {s : Stmt} {env : Env} (run : MadeSafe w k n m (.execute s env))
    (hcall : w.calls ⟨n + 1, .execute s env, m⟩) (h : Good w k m)
    (hc : Ready w k m ⟨n + 1, .execute s env, m⟩ (.stmt s) env) :
    Safe w k m (execute (n + 1) s env) (FinishOk w k m s env) := by
  cases s with
  | expr e =>
    refine .finished rfl (Safe.bind (run _ _ .expression) fun v m₁ _ h₁ _ => ?_)
    exact signal_safe h₁.good fun _ h => nomatch h
  | varDecl name e =>
    obtain ⟨program, p, hp⟩ := hc
    have hshaped : (Stmt.varDecl name e).Shaped Token.Spelled := hp.occurs.shaped hp.loaded.shaped
    refine Safe.bind (run _ _ .declared) fun v m₁ _ h₁ hv => ?_
    have hdefine : Safe w k m₁ (modifyStore (·.define env name.lexeme v))
        (fun m' _ => BoundSince m env name.lexeme m') :=
      .of_ok rfl (.define h₁.good hshaped.1.plain hv.later) (.define env _ v h₁.keeps)
    refine hdefine.bind fun _ m₂ _ h₂ hbound =>
      .pure h₂.good ⟨(fun _ h => nomatch h), fun a ha => ?_⟩
    cases ha
    exact hbound
  | funDecl decl =>
    obtain ⟨name, code⟩ := decl
    exact funDecl_safe hcall h hc
  | classDecl name superclass methods =>
    obtain ⟨program, p, hp⟩ := hc
    refine (declareClass_safe h rfl hp hcall).bind fun _ m₁ _ h₁ hbound =>
      .pure h₁.good ⟨(fun _ h => nomatch h), fun a ha => ?_⟩
    cases ha
    exact hbound
  | branch condition yes no =>
    refine .finished rfl (Safe.bind (run _ _ .branchCondition) fun a m₁ ha h₁ _ => ?_)
    by_cases ht : a.isTruthy = true
    · rw [if_pos ht]
      exact (run _ _ (.branchYes ha ht)).mono fun _ _ hr => hr.signal
    · rw [if_neg ht]
      cases no with
      | some no =>
        exact (run _ _ (.branchNo ha (Bool.eq_false_iff.mpr ht))).mono fun _ _ hr => hr.signal
      | none => exact signal_safe h₁.good fun _ h => nomatch h
  | whileLoop condition body => exact .finished rfl (run _ _ .whileTurns)
  | forLoop init condition increment body =>
    have hframe : Safe w k m (newFrame env []) (fun _ _ => True) :=
      .of_ok rfl (.push h fun _ _ hv => by cases hv) trivial
    refine .finished rfl (hframe.bind fun inner m₁ hinner h₁ _ => ?_)
    cases init with
    | none => exact run _ _ (.bareTurns hinner)
    | some start =>
      refine Safe.bind (run _ _ (.loopStart hinner)) fun r m₂ hr h₂ _ => ?_
      exact run _ _ (.loopTurns hinner hr)
  | block body =>
    have hframe : Safe w k m (newFrame env []) (fun _ _ => True) :=
      .of_ok rfl (.push h fun _ _ hv => by cases hv) trivial
    exact .finished rfl (hframe.bind fun inner m₁ hinner h₁ _ => run _ _ (.block hinner))
  | ret keyword value =>
    cases value with
    | none =>
      refine .finished rfl (.pure h fun v hv => ?_)
      cases hv
      trivial
    | some e =>
      refine .finished rfl (Safe.bind (run _ _ .returned) fun v m₁ _ h₁ hv => ?_)
      refine .pure h₁.good fun u hu => ?_
      cases hu
      exact hv
  | leave keyword | next keyword =>
    exact .finished rfl (signal_safe h fun _ h => nomatch h)

theorem executeAll_safe {ss : List Stmt} {env : Env} (run : MadeSafe w k n m (.executeAll ss env))
    (h : Good w k m) : Safe w k m (executeAll (n + 1) ss env) (SignalOk w k) := by
  cases ss with
  | nil => exact signal_safe h fun _ h => nomatch h
  | cons s rest =>
    refine Safe.bind (run _ _ .firstStatement) fun r m₁ hr h₁ hok => ?_
    cases r with
    | normal => exact run _ _ (.otherStatements hr)
    | ret v => exact .pure h₁.good hok.signal
    | leave | next => exact signal_safe h₁.good fun _ h => nomatch h

/-- What follows a turn of a loop that goes on: the increment, and the other turns. -/
theorem nextTurn_safe {condition : Expr} {increment : Option Expr} {body : Stmt} {env : Env}
    (run : MadeSafe w k n m (.turns condition increment body env)) {a : Value} {r : Signal}
    {m₁ m₂ : Machine} (ha : (evaluate n condition env).run m = (.ok a, m₁))
    (ht : a.isTruthy = true) (hr : (execute n body env).run m₁ = (.ok r, m₂))
    (hg : r.goesOn = true) :
    Safe w k m₂ (goOn n condition increment body env) (SignalOk w k) := by
  cases increment with
  | none => exact run _ _ (.nextBareTurn ha ht hr hg)
  | some i =>
    refine Safe.bind (run _ _ (.turnIncrement ha ht hr hg)) fun v m₃ hv h₃ _ => ?_
    exact run _ _ (.nextTurn ha ht hr hg hv)

theorem turns_safe {condition : Expr} {increment : Option Expr} {body : Stmt} {env : Env}
    (run : MadeSafe w k n m (.turns condition increment body env)) :
    Safe w k m (turns (n + 1) condition increment body env) (SignalOk w k) := by
  refine Safe.bind (run _ _ .turnCondition) fun a m₁ ha h₁ _ => ?_
  by_cases ht : a.isTruthy = true
  · rw [if_pos ht]
    refine Safe.bind (run _ _ (.turnBody ha ht)) fun r m₂ hr h₂ hok => ?_
    -- after the body: out of the function, out of the loop, or on with the loop
    cases r with
    | ret v => exact .pure h₂.good fun u hu => hok.signal u hu
    | leave => exact signal_safe h₂.good fun _ h => nomatch h
    | normal | next => exact nextTurn_safe run ha ht hr rfl
  · rw [if_neg ht]
    exact signal_safe h₁.good fun _ h => nomatch h

end Functions

/-! ## 5. Every fuel -/

/-- **No call is stopped by a fault**, whatever its fuel. -/
theorem safeAt (hclosed : w.calls.Closed) (n : Nat) : SafeAt w k n := by
  induction n with
  | zero =>
    intro c m _ h _
    cases c <;> exact Safe.starved h
  | succ n ih =>
    intro c m hcall h hc
    have run : MadeSafe w k n m c := by
      intro c' m' hm
      obtain ⟨hafter, hc'⟩ := hm.ok ih hclosed rfl hcall h hc
      exact ih c' m' (hclosed n c m c' m' hcall hm) hafter.good (hc'.made hm)
    cases c with
    | evaluate => exact evaluate_safe run hcall h hc
    | evaluateAll => exact evaluateAll_safe run h
    | apply => exact apply_safe run hcall h hc
    | invoke => exact invoke_safe run h hc
    | execute => exact execute_safe run hcall h hc
    | executeAll => exact executeAll_safe run h
    | turns => exact turns_safe run

end Lox
