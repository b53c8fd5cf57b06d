import Lox.Proofs.Machine.Truncation
import Lox.Proofs.Rewriting.Machines

/-!
# Computations of programs written another way

The same program written out needs more fuel, and how much more is not said by the fuel of the short one
alone. So two runs are compared in one direction at a time: one of them leads, and the other one follows it
if it has fuel enough.

* `Machine.Precedes`: what one machine has written and read is a beginning of what another one has.
  `Advances`: a computation that leaves the machine so.
* `PartInto R φ V x x'`: two computations that need no fuel come to the same.
* `RunsInto R leader φ V x x'`: **two computations come to the same**, but for a leader that runs out of
  fuel, and then the follower has come at least as far.
* `PartInto.bind`, `RunsInto.bind`: one computation after another.
* `Fuel`: how much fuel the two have. `RunsInto.fuel` and `RunsInto.unfold` take one unit of it.
-/

namespace Lox

variable {α β : Type}

/-! ## 1. What has been written and read -/

/-- **What one machine has written and read** is a beginning of what another one has. -/
structure Machine.Precedes (m m' : Machine) : Prop where
  written : m.sink.Extends m'.sink
  read : m'.input.forProgram <:+ m.input.forProgram

namespace Machine.Precedes

variable {m m' m'' : Machine}

theorem refl (m : Machine) : m.Precedes m := ⟨.refl _, List.suffix_refl _⟩

theorem trans (h : m.Precedes m') (h' : m'.Precedes m'') : m.Precedes m'' :=
  ⟨h.written.trans h'.written, h'.read.trans h.read⟩

theorem of_same (hsink : m'.sink = m.sink) (hinput : m'.input = m.input) : m.Precedes m' :=
  ⟨hsink ▸ .refl _, hinput ▸ List.suffix_refl _⟩

end Machine.Precedes

theorem nextLine_input (m : Machine) :
    m.nextLine.2.input.forProgram <:+ m.input.forProgram := by
  have hline : m.input.programLine.2.forProgram <:+ m.input.forProgram := by
    have hbehind (n : Nat) : (m.input.behindProgram n).forProgram <:+ m.input.forProgram := by
      rw [Input.forProgram_behindProgram]
      exact List.drop_suffix _ _
    unfold Input.programLine Input.asked
    split <;> exact hbehind _
  unfold Machine.nextLine
  split
  · exact List.suffix_refl _
  · dsimp only
    split
    · exact hline
    · exact hline
    · split <;> exact hline

theorem Consists.precedes {H : History} {m : Machine} {x : Run α} (h : Consists H m x) :
    m.Precedes (x.run m).2 := by
  refine ⟨h.extends, ?_⟩
  induction h with
  | ends h => rw [h]
  | sees _ _ ih => exact ih
  | bind _ _ ihx ihf =>
    exact run_bind_related (R := fun m m' => m'.input.forProgram <:+ m.input.forProgram)
      (fun _ _ _ h h' => h'.trans h) ihx ihf
  | frame | object | identity | field | rebinds | declares | clock | sleeps => exact List.suffix_refl _
  | print => rw [print_run]
  | read =>
    rw [read_run]
    exact nextLine_input _

/-- **A computation that only writes and reads more.** -/
class Advances (x : Run α) : Prop where
  precedes : ∀ m : Machine, m.Precedes (x.run m).2

namespace Advances

theorem of_consists {x : Run α} (h : ∀ m, Consists (fun _ => True) m x) : Advances x :=
  ⟨fun m => (h m).precedes⟩

instance pure (a : α) : Advances (Pure.pure a : Run α) := ⟨fun m => .refl m⟩

instance throw (e : Stop) : Advances (MonadExcept.throw e : Run α) := ⟨fun m => .refl m⟩

instance raise (e : RuntimeError) : Advances (raise e : Run α) := ⟨fun m => .refl m⟩

instance starved : Advances (outOfFuel : Run α) := ⟨fun m => .refl m⟩

instance computed (c : Computed) : Advances (liftM c : Run Value) := by
  refine ⟨fun m => ?_⟩
  cases c <;> exact .refl m

instance modifyStore (g : Store → Store) : Advances (modifyStore g) :=
  ⟨fun _ => .of_same rfl rfl⟩

instance allocate (g : Store → α × Store) : Advances (allocate g) :=
  ⟨fun _ => .of_same rfl rfl⟩

instance newFrame (env : Env) (b : Bindings Value) : Advances (newFrame env b) :=
  Advances.allocate _

instance bind (x : Run α) (f : α → Run β) [hx : Advances x] [hf : ∀ a, Advances (f a)] :
    Advances (x >>= f) :=
  ⟨fun m => run_bind_related (R := Machine.Precedes) (fun _ _ _ => .trans) (hx.precedes m)
    fun a m' _ => (hf a).precedes m'⟩

instance map (g : α → β) (x : Run α) [hx : Advances x] : Advances (g <$> x) := by
  rw [map_eq_pure_bind]
  exact bind _ _

instance ite (c : Prop) [Decidable c] (x y : Run α) [hx : Advances x] [hy : Advances y] :
    Advances (if c then x else y) := by
  split
  · exact hx
  · exact hy

/-! Whatever runs, runs so. -/

instance lookUp (ref : Reference) (env : Env) : Advances (lookUp ref env) :=
  .of_consists fun _ => lookUp_consists ref env

instance rebind (ref : Reference) (env : Env) (v : Value) : Advances (rebind ref env v) :=
  .of_consists fun _ => rebind_consists ref env v

instance newFunction (f : Closure) : Advances (newFunction f) :=
  .of_consists fun _ => newFunction_consists f

instance bindMethod (f : Closure) (this : Value) : Advances (bindMethod f this) :=
  .of_consists fun _ => bindMethod_consists f this

instance methodOr (c : Class) (name : Token) (o : ObjectId) (d : Class) :
    Advances (methodOr c name o d) :=
  .of_consists fun _ => methodOr_consists c name o d

instance property (o : ObjectId) (c : Class) (name : Token) : Advances (property o c name) :=
  .of_consists fun _ => property_consists o c name

instance superMethodOf (c : Class) (method : Token) (env : Env) (nearer : Nat) :
    Advances (superMethodOf c method env nearer) :=
  .of_consists fun _ => superMethodOf_consists c method env nearer

instance finishClass (name : Token) (methods : List FunDecl) (env : Env) (parent : Option Class) :
    Advances (finishClass name methods env parent) :=
  .of_consists fun _ => finishClass_consists name methods env parent

instance declareClass (name : Token) (superclass : Option Reference) (methods : List FunDecl)
    (env : Env) : Advances (declareClass name superclass methods env) :=
  .of_consists fun m =>
    @declareClass_consists (fun _ => True) m 0 name superclass methods env m trivial

instance returned (f : Closure) (s : Signal) : Advances (returned f s) :=
  .of_consists fun _ => returned_consists f s

instance orFailed (paren : Token) (r : Except ConsoleError α) :
    Advances (Native.orFailed paren r) :=
  .of_consists fun _ => .orFailed paren r

theorem call_consists (n : Nat) (c : Call) (m : Machine) : CallConsists (fun _ => True) n m c :=
  calls_consist (fun _ _ _ _ _ _ _ => trivial) n c m trivial

instance evaluate (n : Nat) (e : Expr) (env : Env) : Advances (evaluate n e env) :=
  .of_consists (call_consists n (.evaluate e env))

instance evaluateAll (n : Nat) (es : List Expr) (env : Env) : Advances (evaluateAll n es env) :=
  .of_consists (call_consists n (.evaluateAll es env))

instance apply (n : Nat) (f : Value) (args : List Value) (paren : Token) :
    Advances (apply n f args paren) :=
  .of_consists (call_consists n (.apply f args paren))

instance invoke (n : Nat) (f : Closure) (args : List Value) : Advances (invoke n f args) :=
  .of_consists (call_consists n (.invoke f args))

instance execute (n : Nat) (s : Stmt) (env : Env) : Advances (execute n s env) :=
  .of_consists (call_consists n (.execute s env))

instance executeAll (n : Nat) (ss : List Stmt) (env : Env) : Advances (executeAll n ss env) :=
  .of_consists (call_consists n (.executeAll ss env))

instance turns (n : Nat) (condition : Expr) (increment : Option Expr) (body : Stmt) (env : Env) :
    Advances (turns n condition increment body env) :=
  .of_consists (call_consists n (.turns condition increment body env))

end Advances

/-! ## 2. Computations without fuel -/

/-- **What two computations come to** on two machines, where neither stops for want of fuel. What `V` says
    about their results may depend on the frames there are then. Nothing is said where the short program
    runs into a fault of the machine. -/
inductive EndsInto (R : Rewriting) (φ : List FrameId) (V : List FrameId → α → α → Prop)
    (x x' : Run α) (m m' : Machine) : Prop where
  | faulty {f} (h : (x.run m).1 = .error (.fault f)) : EndsInto R φ V x x' m m'
  | both {ψ} (hφ : φ <+: ψ) (hm : MachineInto R ψ (x.run m).2 (x'.run m').2)
      (hr : OutcomeInto R (V ψ) (x.run m).1 (x'.run m').1) : EndsInto R φ V x x' m m'

/-- **Two computations that need no fuel.** -/
def PartInto (R : Rewriting) (φ : List FrameId) (V : List FrameId → α → α → Prop) (x x' : Run α) :
    Prop :=
  ∀ m m', MachineInto R φ m m' → EndsInto R φ V x x' m m'

/-- Nothing is said about two results. -/
def Whatever (_ : List FrameId) (_ _ : α) : Prop := True

variable {R : Rewriting} {φ ψ : List FrameId}

theorem fst_of_run_bind {x : Run α} {f : α → Run β} {m : Machine} {e : Stop}
    (h : (x.run m).1 = .error e) : ((x >>= f).run m).1 = .error e := by
  rw [run_bind_error (Prod.ext h rfl)]

theorem snd_of_run_bind {x : Run α} {f : α → Run β} {m : Machine} {e : Stop}
    (h : (x.run m).1 = .error e) : ((x >>= f).run m).2 = (x.run m).2 := by
  rw [run_bind_error (Prod.ext h rfl)]

namespace EndsInto

variable {V : List FrameId → α → α → Prop} {W : List FrameId → β → β → Prop} {x x' : Run α}
  {m m' m₁ m₁' : Machine}

/-- Two computations whose outcomes are known. -/
theorem of_run {r r' : Except Stop α} (hx : x.run m = (r, m₁)) (hx' : x'.run m' = (r', m₁'))
    (hφ : φ <+: ψ) (hm : MachineInto R ψ m₁ m₁') (hr : OutcomeInto R (V ψ) r r') :
    EndsInto R φ V x x' m m' := by
  refine .both hφ ?_ ?_
  · rw [hx, hx']
    exact hm
  · rw [hx, hx']
    exact hr

theorem of_fault {f : Fault} (hx : x.run m = (.error (.fault f), m₁)) :
    EndsInto R φ V x x' m m' := .faulty (congrArg Prod.fst hx)

theorem congr {y y' : Run α} {n n' : Machine} (h : EndsInto R φ V y y' n n')
    (hx : x.run m = y.run n) (hx' : x'.run m' = y'.run n') : EndsInto R φ V x x' m m' := by
  cases h with
  | faulty h => exact .faulty (hx ▸ h)
  | both hφ hm hr => exact .both hφ (hx ▸ hx' ▸ hm) (hx ▸ hx' ▸ hr)

theorem later (h : EndsInto R ψ V x x' m m') (hφ : φ <+: ψ) : EndsInto R φ V x x' m m' := by
  cases h with
  | faulty h => exact .faulty h
  | both hψ hm hr => exact .both (hφ.trans hψ) hm hr

theorem imp {W : List FrameId → α → α → Prop} (h : EndsInto R φ V x x' m m')
    (hVW : ∀ ψ a a', φ <+: ψ → V ψ a a' → W ψ a a') : EndsInto R φ W x x' m m' := by
  cases h with
  | faulty h => exact .faulty h
  | @both ψ hφ hm hr =>
    refine .both hφ hm ?_
    generalize (x.run m).1 = r, (x'.run m').1 = r' at hr ⊢
    cases hr with
    | ok hv => exact .ok (hVW ψ _ _ hφ hv)
    | error he => exact .error he

/-- **One computation after another.** -/
theorem bind {f f' : α → Run β} (hx : EndsInto R φ V x x' m m')
    (hf : ∀ ψ a a', φ <+: ψ → MachineInto R ψ (x.run m).2 (x'.run m').2 → V ψ a a' →
      EndsInto R ψ W (f a) (f' a') (x.run m).2 (x'.run m').2) :
    EndsInto R φ W (x >>= f) (x' >>= f') m m' := by
  cases hx with
  | faulty h => exact .faulty (fst_of_run_bind h)
  | @both ψ hφ hm hr =>
    cases hrun : x.run m with
    | mk r m₁ =>
      cases hrun' : x'.run m' with
      | mk r' m₁' =>
        rw [hrun, hrun'] at hm hr hf
        cases hr with
        | ok hv => exact ((hf ψ _ _ hφ hm hv).later hφ).congr (run_bind_ok hrun) (run_bind_ok hrun')
        | error he => exact of_run (run_bind_error hrun) (run_bind_error hrun') hφ hm (.error he)

end EndsInto

namespace PartInto

variable {V : List FrameId → α → α → Prop} {W : List FrameId → β → β → Prop} {x x' : Run α}

theorem pure {a a' : α} (h : V φ a a') : PartInto R φ V (Pure.pure a) (Pure.pure a') :=
  fun _ _ hm => .of_run rfl rfl (List.prefix_refl φ) hm (.ok h)

theorem raise {e e' : RuntimeError} (h : ErrorInto R e e') :
    PartInto R φ V (raise e) (Lox.raise e') :=
  fun _ _ hm => .of_run rfl rfl (List.prefix_refl φ) hm (.error h)

theorem fault {f : Fault} : PartInto R φ V (throw (.fault f)) x' := fun _ _ _ => .of_fault rfl

/-- **One computation after another.** -/
theorem bind {f f' : α → Run β} (hx : PartInto R φ V x x')
    (hf : ∀ ψ a a', φ <+: ψ → V ψ a a' → PartInto R ψ W (f a) (f' a')) :
    PartInto R φ W (x >>= f) (x' >>= f') :=
  fun m m' hm => (hx m m' hm).bind fun ψ a a' hφ hm₁ hv => hf ψ a a' hφ hv _ _ hm₁

theorem imp {W : List FrameId → α → α → Prop} (h : PartInto R φ V x x')
    (hVW : ∀ ψ a a', φ <+: ψ → V ψ a a' → W ψ a a') : PartInto R φ W x x' :=
  fun m m' hm => (h m m' hm).imp hVW

/-- A change of the store. -/
theorem modifyStore {g g' : Store → Store} (h : ∀ m m', MachineInto R φ m m' →
    MachineInto R φ { m with store := g m.store } { m' with store := g' m'.store }) :
    PartInto R φ Whatever (modifyStore g) (Lox.modifyStore g') :=
  fun m m' hm => .of_run rfl rfl (List.prefix_refl φ) (h m m' hm) (.ok trivial)

end PartInto

/-! ## 3. Computations with fuel -/

/-- Which of two programs leads. The other one follows. -/
inductive Leader where
  | short
  | long
deriving DecidableEq

/-- **What two computations come to** on two machines: a leader that runs out of fuel has come no further
    than its follower. -/
inductive RunsIntoAt (R : Rewriting) (leader : Leader) (φ : List FrameId)
    (V : List FrameId → α → α → Prop) (x x' : Run α) (m m' : Machine) : Prop where
  | ends (h : EndsInto R φ V x x' m m') : RunsIntoAt R leader φ V x x' m m'
  | short (hleader : leader = .short) (h : (x.run m).1 = .error .starved)
      (hbehind : (x.run m).2.Precedes (x'.run m').2) : RunsIntoAt R leader φ V x x' m m'
  | long (hleader : leader = .long) (h : (x'.run m').1 = .error .starved)
      (hbehind : (x'.run m').2.Precedes (x.run m).2) : RunsIntoAt R leader φ V x x' m m'

/-- **Two computations.** -/
def RunsInto (R : Rewriting) (leader : Leader) (φ : List FrameId)
    (V : List FrameId → α → α → Prop) (x x' : Run α) : Prop :=
  ∀ m m', MachineInto R φ m m' → RunsIntoAt R leader φ V x x' m m'

variable {leader : Leader}

/-- What follows a computation only writes and reads more. -/
theorem precedes_bind (x : Run α) (f : α → Run β) [hf : ∀ a, Advances (f a)] (m : Machine) :
    (x.run m).2.Precedes ((x >>= f).run m).2 := by
  cases hrun : x.run m with
  | mk r m₁ =>
    cases r with
    | ok a =>
      rw [run_bind_ok hrun]
      exact (hf a).precedes m₁
    | error e =>
      rw [run_bind_error hrun]
      exact .refl m₁

namespace RunsIntoAt

variable {V : List FrameId → α → α → Prop} {W : List FrameId → β → β → Prop} {x x' : Run α}
  {m m' : Machine}

theorem congr {y y' : Run α} {n n' : Machine} (h : RunsIntoAt R leader φ V y y' n n')
    (hx : x.run m = y.run n) (hx' : x'.run m' = y'.run n') : RunsIntoAt R leader φ V x x' m m' := by
  cases h with
  | ends h => exact .ends (h.congr hx hx')
  | short hl h hb => exact .short hl (hx ▸ h) (hx ▸ hx' ▸ hb)
  | long hl h hb => exact .long hl (hx' ▸ h) (hx ▸ hx' ▸ hb)

theorem later (h : RunsIntoAt R leader ψ V x x' m m') (hφ : φ <+: ψ) :
    RunsIntoAt R leader φ V x x' m m' := by
  cases h with
  | ends h => exact .ends (h.later hφ)
  | short hl h hb => exact .short hl h hb
  | long hl h hb => exact .long hl h hb

/-- **One computation after another.** -/
theorem bind {f f' : α → Run β} [hg : ∀ a, Advances (f a)] [hg' : ∀ a, Advances (f' a)]
    (hx : RunsIntoAt R leader φ V x x' m m')
    (hf : ∀ ψ a a', φ <+: ψ → MachineInto R ψ (x.run m).2 (x'.run m').2 → V ψ a a' →
      RunsIntoAt R leader ψ W (f a) (f' a') (x.run m).2 (x'.run m').2) :
    RunsIntoAt R leader φ W (x >>= f) (x' >>= f') m m' := by
  cases hx with
  | ends h =>
    cases h with
    | faulty h => exact .ends (.faulty (fst_of_run_bind h))
    | @both ψ hφ hm hr =>
      cases hrun : x.run m with
      | mk r m₁ =>
        cases hrun' : x'.run m' with
        | mk r' m₁' =>
          rw [hrun, hrun'] at hm hr hf
          cases hr with
          | ok hv =>
            exact ((hf ψ _ _ hφ hm hv).later hφ).congr (run_bind_ok hrun) (run_bind_ok hrun')
          | error he =>
            exact .ends (.of_run (run_bind_error hrun) (run_bind_error hrun') hφ hm (.error he))
  | short hl h hb =>
    refine .short hl (fst_of_run_bind h) ?_
    rw [snd_of_run_bind h]
    exact hb.trans (precedes_bind x' f' m')
  | long hl h hb =>
    refine .long hl (fst_of_run_bind h) ?_
    rw [snd_of_run_bind h]
    exact hb.trans (precedes_bind x f m)

end RunsIntoAt

theorem PartInto.runs {V : List FrameId → α → α → Prop} {x x' : Run α} (h : PartInto R φ V x x') :
    RunsInto R leader φ V x x' := fun m m' hm => .ends (h m m' hm)

namespace RunsInto

variable {V : List FrameId → α → α → Prop} {W : List FrameId → β → β → Prop} {x x' : Run α}

theorem pure {a a' : α} (h : V φ a a') : RunsInto R leader φ V (Pure.pure a) (Pure.pure a') :=
  (PartInto.pure h).runs

theorem raise {e e' : RuntimeError} (h : ErrorInto R e e') :
    RunsInto R leader φ V (raise e) (Lox.raise e') := (PartInto.raise h).runs

/-- **One computation after another.** -/
theorem bind {f f' : α → Run β} [hg : ∀ a, Advances (f a)] [hg' : ∀ a, Advances (f' a)]
    (hx : RunsInto R leader φ V x x')
    (hf : ∀ ψ a a', φ <+: ψ → V ψ a a' → RunsInto R leader ψ W (f a) (f' a')) :
    RunsInto R leader φ W (x >>= f) (x' >>= f') :=
  fun m m' hm => (hx m m' hm).bind fun ψ a a' hφ hm₁ hv => hf ψ a a' hφ hv _ _ hm₁

/-- Two choices by values that are related. -/
theorem choice {v v' : Value} (hv : ValueInto R φ v v') {y y' : Run α}
    (hx : RunsInto R leader φ V x x') (hy : RunsInto R leader φ V y y') :
    RunsInto R leader φ V (if v.isTruthy then x else y) (if v'.isTruthy then x' else y') := by
  rw [hv.isTruthy]
  split
  · exact hx
  · exact hy

theorem of_starved_short [hx' : Advances x'] : RunsInto R .short φ V outOfFuel x' := by
  intro m m' hm
  refine .short rfl rfl (Machine.Precedes.trans ?_ (hx'.precedes m'))
  exact .of_same hm.sink hm.input

theorem of_starved_long [hx : Advances x] : RunsInto R .long φ V x outOfFuel := by
  intro m m' hm
  refine .long rfl rfl (Machine.Precedes.trans ?_ (hx.precedes m))
  exact .of_same hm.sink.symm hm.input.symm

end RunsInto

/-! ## 4. Fuel -/

/-- Fuel that is enough for the written-out program, where the short one has `n`. -/
def enough : Nat → Nat
  | 0 => 0
  | n + 1 => enough n + n + 16

/-- **The fuel of a follower** is enough, with some to spare. The short program needs no more than the
    written-out one. -/
def Fuel (spare n k : Nat) : Leader → Prop
  | .short => enough n + spare ≤ k
  | .long => k ≤ n

variable {spare spare' n k : Nat}

theorem Fuel.less (h : Fuel spare n k leader) (hs : spare' ≤ spare) : Fuel spare' n k leader := by
  cases leader with
  | short => exact Nat.le_trans (Nat.add_le_add_left hs _) h
  | long => exact h

/-- Both use a unit of fuel. -/
theorem Fuel.both (h : Fuel spare (n + 1) (k + 1) leader) : Fuel (n + 15 + spare) n k leader := by
  cases leader with
  | short =>
    unfold Fuel enough at h
    unfold Fuel
    dsimp only at h ⊢
    omega
  | long => exact Nat.le_of_succ_le_succ h

/-- The written-out program uses a unit of fuel more. -/
theorem Fuel.unfold (h : Fuel (spare + 1) n (k + 1) leader) : Fuel spare n k leader := by
  cases leader with
  | short => exact Nat.le_of_succ_le_succ h
  | long => exact Nat.le_of_succ_le h

namespace RunsInto

variable {V : List FrameId → α → α → Prop} {x y : Nat → Run α}

/-- **Each of two computations with fuel** has some, or the leader stops for want of it. -/
theorem fuel [hx : ∀ n, Advances (x n)] [hy : ∀ n, Advances (y n)] (h0 : x 0 = outOfFuel)
    (h0' : y 0 = outOfFuel) (hfuel : Fuel spare n k leader)
    (h : ∀ n' k', n = n' + 1 → k = k' + 1 → Fuel (n' + 15 + spare) n' k' leader →
      RunsInto R leader φ V (x (n' + 1)) (y (k' + 1))) :
    RunsInto R leader φ V (x n) (y k) := by
  cases n with
  | zero =>
    cases leader with
    | short =>
      rw [h0]
      exact of_starved_short
    | long =>
      rw [Nat.le_zero.mp hfuel, h0']
      exact of_starved_long
  | succ n =>
    cases k with
    | zero =>
      cases leader with
      | short =>
        unfold Fuel enough at hfuel
        dsimp only at hfuel
        omega
      | long =>
        rw [h0']
        exact of_starved_long
    | succ k => exact h n k rfl rfl hfuel.both

/-- **A step of the written-out program alone.** -/
theorem unfold {x : Run α} [hx : Advances x] (h0' : y 0 = outOfFuel)
    (hfuel : Fuel (spare + 1) n k leader)
    (h : ∀ k', k = k' + 1 → Fuel spare n k' leader → RunsInto R leader φ V x (y (k' + 1))) :
    RunsInto R leader φ V x (y k) := by
  cases k with
  | zero =>
    cases leader with
    | short => exact absurd hfuel (Nat.not_succ_le_zero _)
    | long =>
      rw [h0']
      exact of_starved_long
  | succ k => exact h k rfl hfuel.unfold

end RunsInto

end Lox
