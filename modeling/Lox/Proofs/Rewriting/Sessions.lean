import Lox.Proofs.Rewriting.Plain
import Lox.Proofs.Rewriting.Steps
import Lox.Proofs.Session.Pieces

/-!
# Sessions that run programs written another way

* `SessionInto`: two sessions, after a program and after the same program written out. `StepInto` says what
  two steps come to, if one of them leads.
* `run_into`: **programs run so**, up to their first error or statement by statement.
* `Session.prepared`: a session that has resolved a tree, as it does what it reads of a source.
* `Follows`: what one run shows, another one shows as well, if it has fuel enough.
* `written_out_runs_alike`: **a program that a session lets through, and the same program written out.**
-/

namespace Lox

variable {R : Rewriting} {view : Position → Position} {leader : Leader} {φ : List FrameId} {n k : Nat}

/-! ## 1. What is shown -/

/-- Reports, with their places seen through `view`. -/
def Diagnostics.through (view : Position → Position) (d : Diagnostics) : List Report :=
  d.reports.map (Report.mapPos view)

/-- **Two sessions.** -/
structure SessionInto (R : Rewriting) (view : Position → Position) (s s' : Session) : Prop where
  machine : ∃ φ, MachineInto R φ s.machine s'.machine
  reports : s'.diagnostics.through view = s.diagnostics.through view
  hasStatic : s'.diagnostics.hasStatic = s.diagnostics.hasStatic
  hasRuntime : s'.diagnostics.hasRuntime = s.diagnostics.hasRuntime

/-- **What one session has written, read and reported** is a beginning of what another one has. -/
structure Session.Precedes (view : Position → Position) (s s' : Session) : Prop where
  machine : s.machine.Precedes s'.machine
  reports : s.diagnostics.through view <+: s'.diagnostics.through view

/-- **What two steps come to**: a leader that runs out of fuel has come no further than its follower. -/
inductive StepInto (R : Rewriting) (view : Position → Position) (leader : Leader) (t t' : Step) :
    Prop where
  | ends (h : SessionInto R view t.session t'.session) (hhalt : t.halt = none)
      (hhalt' : t'.halt = none) : StepInto R view leader t t'
  | short (hleader : leader = .short) (hhalt : t.halt = some .starved)
      (hbehind : t.session.Precedes view t'.session) : StepInto R view leader t t'
  | long (hleader : leader = .long) (hhalt : t'.halt = some .starved)
      (hbehind : t'.session.Precedes view t.session) : StepInto R view leader t t'

namespace Session.Precedes

variable {s s' s'' : Session}

theorem refl (s : Session) : s.Precedes view s := ⟨.refl _, List.prefix_refl _⟩

theorem trans (h : s.Precedes view s') (h' : s'.Precedes view s'') : s.Precedes view s'' :=
  ⟨h.machine.trans h'.machine, h.reports.trans h'.reports⟩

/-- What is reported later is reported behind. -/
theorem of_reports (hm : s.machine.Precedes s'.machine)
    (hr : s.diagnostics.reports <+: s'.diagnostics.reports) : s.Precedes view s' :=
  ⟨hm, hr.map _⟩

end Session.Precedes

/-! ## 2. Statements -/

instance Advances.runAll (n : Nat) (ss : List Stmt) : Advances (runAll n ss) := by
  induction ss with
  | nil => exact Advances.pure ()
  | cons s rest ih => exact Advances.bind _ _

instance Advances.perform (n : Nat) (statement : Stmt) : Advances (perform n statement) := by
  cases statement <;> exact Advances.map _ _

instance Advances.write (text : String) : Advances (write text) :=
  ⟨fun _ => ⟨Sink.extends_write _ _, List.suffix_refl _⟩⟩

/-- What two statements at the top come to. -/
inductive YieldInto (R : Rewriting) (φ : List FrameId) : Yield → Yield → Prop where
  | value {v v'} (h : ValueInto R φ v v') : YieldInto R φ (.value v) (.value v')
  | signal {r r'} (h : SignalInto R φ r r') : YieldInto R φ (.signal r) (.signal r')

theorem globals_into (hφ : φ[Store.globalFrame]? = some Store.globalFrame) :
    EnvInto φ [] Store.globals Store.globals := .base (.cons hφ .nil)

theorem RunsInto.map {α β : Type} {V : List FrameId → α → α → Prop} {W : List FrameId → β → β → Prop}
    {x x' : Run α} {f : α → β} (hx : RunsInto R leader φ V x x')
    (h : ∀ ψ a a', V ψ a a' → W ψ (f a) (f a')) : RunsInto R leader φ W (f <$> x) (f <$> x') := by
  rw [map_eq_pure_bind, map_eq_pure_bind]
  exact hx.bind fun ψ a a' _ hv => .pure (h ψ a a' hv)

theorem runAll_into (hk : Fuel 0 n k leader) (hφ : φ[Store.globalFrame]? = some Store.globalFrame)
    {ss ss' : List Stmt} (h : StmtsInto R none [] ss ss') :
    RunsInto R leader φ Whatever (runAll n ss) (runAll k ss') := by
  induction ss generalizing ss' φ with
  | nil =>
    cases h with
    | nil => exact .pure trivial
  | cons s rest ih =>
    cases h with
    | cons h hrest =>
      exact ((intoAt R leader n).execute hk (globals_into hφ) h).bind fun ψ _ _ hψ _ =>
        ih (frame_later hψ hφ) hrest

theorem perform_into (hk : Fuel 0 n k leader) (hφ : φ[Store.globalFrame]? = some Store.globalFrame)
    {statement statement' : Stmt} (h : StmtInto R none [] statement statement') :
    RunsInto R leader φ (YieldInto R) (perform n statement) (perform k statement') := by
  have hexecute := RunsInto.map (W := YieldInto R) (f := Yield.signal)
    ((intoAt R leader n).execute hk (globals_into hφ) h) fun _ _ _ hr => .signal hr
  cases h with
  | expr h =>
    exact .map ((intoAt R leader n).evaluate hk (globals_into hφ) h) fun _ _ _ hv => .value hv
  | _ => exact hexecute

/-- The value of an expression is shown, and nothing else. -/
def Yield.show : Yield → Run (Except ConsoleError Unit)
  | value v => echo v
  | signal _ => pure (.ok ())

/-- A statement at the top, and what is shown of it. -/
def shown (n : Nat) (statement : Stmt) : Run (Except ConsoleError Unit) :=
  perform n statement >>= Yield.show

/-- A session after a statement was run and shown. -/
def Session.told (s : Session) : Except Stop (Except ConsoleError Unit) × Machine → Step
  | (.ok (.error e), m) => ⟨Session.report { s with machine := m } [.io e.message], none⟩
  | r => s.settle r

theorem runStatement_told (n : Nat) (s : Session) (statement : Stmt) :
    s.runStatement n statement = s.told ((shown n statement).run s.machine) := by
  unfold Session.runStatement shown
  cases hrun : (perform n statement).run s.machine with
  | mk r m =>
    cases r with
    | error e =>
      rw [run_bind_error hrun]
      cases e <;> rfl
    | ok y =>
      rw [run_bind_ok hrun]
      cases y with
      | value v => rfl
      | signal r => rfl

instance Advances.show (y : Yield) : Advances y.show := by
  cases y with
  | value v => exact Advances.write _
  | signal r => exact Advances.pure _

instance Advances.shown (n : Nat) (statement : Stmt) : Advances (shown n statement) :=
  Advances.bind _ _

theorem show_into {y y' : Yield} (h : YieldInto R φ y y') :
    PartInto R φ (fun _ a a' => a' = a) y.show y'.show := by
  cases h with
  | value hv =>
    show PartInto R φ (fun _ a a' => a' = a) (echo _) (echo _)
    rw [echo, echo, hv.display]
    exact write_into _
  | signal _ => exact .pure rfl

theorem shown_into (hk : Fuel 0 n k leader) (hφ : φ[Store.globalFrame]? = some Store.globalFrame)
    {statement statement' : Stmt} (h : StmtInto R none [] statement statement') :
    RunsInto R leader φ (fun _ a a' => a' = a) (shown n statement) (shown k statement') :=
  (perform_into hk hφ h).bind fun _ _ _ _ hy => (show_into hy).runs

/-! ## 3. Steps -/

section Steps

variable {s s' : Session}

theorem told_machine (s : Session) (r : Except Stop (Except ConsoleError Unit) × Machine) :
    (s.told r).session.machine = r.2 := by
  obtain ⟨r, m⟩ := r
  match r with
  | .ok (.error e) => rfl
  | .ok (.ok ()) => rfl
  | .error stop => exact settle_machine s _

theorem reports_report (s : Session) (rs : List Report) :
    s.diagnostics.reports <+: (s.report rs).diagnostics.reports := by
  show _ <+: (s.diagnostics.reportAll rs).reports
  rw [Diagnostics.reportAll_eq]
  exact List.prefix_append _ _

theorem reports_settle {α : Type} (s : Session) (r : Except Stop α × Machine) :
    s.diagnostics.reports <+: (s.settle r).session.diagnostics.reports := by
  obtain ⟨r, m⟩ := r
  match r with
  | .ok _ | .error (.fault _) | .error .starved => exact List.prefix_refl _
  | .error (.error e) => exact reports_report { s with machine := m } _

theorem reports_told (s : Session) (r : Except Stop (Except ConsoleError Unit) × Machine) :
    s.diagnostics.reports <+: (s.told r).session.diagnostics.reports := by
  obtain ⟨r, m⟩ := r
  match r with
  | .ok (.error e) => exact reports_report { s with machine := m } _
  | .ok (.ok ()) => exact List.prefix_refl _
  | .error stop => exact reports_settle s _

/-- A line only writes, reads and reports more. -/
theorem runStatements_precedes (n : Nat) (s : Session) (ss : List Stmt) :
    s.Precedes view (s.runStatements n ss).session := by
  induction ss generalizing s with
  | nil => exact .of_reports (.refl _) (List.prefix_refl _)
  | cons statement rest ih =>
    have hfirst : s.Precedes view (s.runStatement n statement).session := by
      rw [runStatement_told]
      refine .of_reports ?_ (reports_told s _)
      rw [told_machine]
      exact Advances.precedes s.machine
    rw [Session.runStatements]
    split
    · exact hfirst
    · exact hfirst.trans (ih _)

theorem SessionInto.precedes (h : SessionInto R view s s') : s.Precedes view s' := by
  obtain ⟨φ, hm⟩ := h.machine
  exact ⟨.of_same hm.sink hm.input, h.reports ▸ List.prefix_refl _⟩

theorem SessionInto.report (hs : SessionInto R view s s') {m m' : Machine} (hm : MachineInto R φ m m')
    {r r' : Report} (hr : r'.mapPos view = r.mapPos view) (hstatic : r'.isStatic = r.isStatic) :
    SessionInto R view (Session.report { s with machine := m } [r])
      (Session.report { s' with machine := m' } [r']) := by
  refine ⟨⟨φ, hm⟩, ?_, ?_, ?_⟩
  · show List.map _ (s'.diagnostics.reports ++ [r']) = List.map _ (s.diagnostics.reports ++ [r])
    rw [List.map_append, List.map_append, List.map_singleton, List.map_singleton, hr]
    exact congrArg (· ++ _) hs.reports
  · show (s'.diagnostics.hasStatic || r'.isStatic) = (s.diagnostics.hasStatic || r.isStatic)
    rw [hs.hasStatic, hstatic]
  · show (s'.diagnostics.hasRuntime || !r'.isStatic) = (s.diagnostics.hasRuntime || !r.isStatic)
    rw [hs.hasRuntime, hstatic]

theorem SessionInto.run (hs : SessionInto R view s s') {m m' : Machine} (hm : MachineInto R φ m m') :
    SessionInto R view { s with machine := m } { s' with machine := m' } :=
  ⟨⟨φ, hm⟩, hs.reports, hs.hasStatic, hs.hasRuntime⟩

theorem settle_starved {α : Type} {r : Except Stop α × Machine} (h : r.1 = .error .starved) :
    s.settle r = ⟨{ s with machine := r.2 }, some .starved⟩ := by
  unfold Session.settle
  rw [h]

theorem told_starved {r : Except Stop (Except ConsoleError Unit) × Machine}
    (h : r.1 = .error .starved) : s.told r = ⟨{ s with machine := r.2 }, some .starved⟩ := by
  obtain ⟨r, m⟩ := r
  obtain rfl : r = .error .starved := h
  rfl

/-- A step that stops for want of fuel has come no further than another one. -/
theorem behind (hsame : s.diagnostics.through view = s'.diagnostics.through view) {m m' : Machine}
    {t : Step} (hm : m.Precedes m') (ht : t.session.machine = m')
    (hr : s'.diagnostics.reports <+: t.session.diagnostics.reports) :
    Session.Precedes view { s with machine := m } t.session := by
  refine ⟨ht ▸ hm, ?_⟩
  show s.diagnostics.through view <+: _
  rw [hsame]
  exact hr.map _

variable (hview : ∀ p p', R.pos p p' → view p' = view p)

include hview

theorem ErrorInto.through {e e' : RuntimeError} (h : ErrorInto R e e') :
    (Report.runtime e').mapPos view = (Report.runtime e).mapPos view := by
  obtain ⟨p', hp, rfl⟩ := h
  have hfar : (e.mapPos fun _ => p').mapPos view = e.mapPos fun _ => view p' := by cases e <;> rfl
  have hnear : e.mapPos view = e.mapPos fun _ => view e.pos := by cases e <;> rfl
  show Report.runtime _ = Report.runtime _
  rw [hfar, hnear, hview _ _ hp]

/-- A run that ends, or that a fault ends. -/
theorem settle_into {α : Type} {V : List FrameId → α → α → Prop} {x x' : Run α}
    (hs : SessionInto R view s s') (h : EndsInto R φ V x x' s.machine s'.machine)
    (hfault : ∀ f, (s.settle (x.run s.machine)).halt ≠ some (.fault f)) :
    StepInto R view leader (s.settle (x.run s.machine)) (s'.settle (x'.run s'.machine)) := by
  cases h with
  | @faulty f h =>
    refine absurd ?_ (hfault f)
    unfold Session.settle
    rw [h]
  | @both ψ _ hm hr =>
    generalize x.run s.machine = o, x'.run s'.machine = o' at hm hr ⊢
    obtain ⟨r, m⟩ := o
    obtain ⟨r', m'⟩ := o'
    cases hr with
    | ok _ => exact .ends (hs.run hm) rfl rfl
    | error he => exact .ends (hs.report hm (he.through hview) rfl) rfl rfl

theorem told_into {x x' : Run (Except ConsoleError Unit)} (hs : SessionInto R view s s')
    (h : EndsInto R φ (fun _ a a' => a' = a) x x' s.machine s'.machine)
    (hfault : ∀ f, (s.told (x.run s.machine)).halt ≠ some (.fault f)) :
    StepInto R view leader (s.told (x.run s.machine)) (s'.told (x'.run s'.machine)) := by
  cases h with
  | @faulty f h =>
    refine absurd ?_ (hfault f)
    rw [show x.run s.machine = (.error (.fault f), (x.run s.machine).2) from Prod.ext h rfl]
    rfl
  | @both ψ _ hm hr =>
    generalize x.run s.machine = o, x'.run s'.machine = o' at hm hr ⊢
    obtain ⟨r, m⟩ := o
    obtain ⟨r', m'⟩ := o'
    cases hr with
    | @ok _ a ha =>
      subst ha
      match a with
      | .ok () => exact .ends (hs.run hm) rfl rfl
      | .error e => exact .ends (hs.report hm rfl rfl) rfl rfl
    | error he => exact .ends (hs.report hm (he.through hview) rfl) rfl rfl

/-- **One statement** of a line. -/
theorem runStatement_into (hk : Fuel 0 n k leader) (hs : SessionInto R view s s')
    {statement statement' : Stmt} (h : StmtInto R none [] statement statement')
    (hfault : ∀ f, (s.runStatement n statement).halt ≠ some (.fault f)) :
    StepInto R view leader (s.runStatement n statement) (s'.runStatement k statement') := by
  obtain ⟨φ, hm⟩ := hs.machine
  rw [runStatement_told] at hfault ⊢
  rw [runStatement_told]
  cases shown_into hk hm.global h _ _ hm with
  | ends hends => exact told_into hview hs hends hfault
  | short hleader hstarved hbehind =>
    rw [told_starved hstarved]
    exact .short hleader rfl (behind hs.reports.symm hbehind (told_machine s' _) (reports_told s' _))
  | long hleader hstarved hbehind =>
    rw [told_starved hstarved]
    exact .long hleader rfl (behind hs.reports hbehind (told_machine s _) (reports_told s _))

theorem runStatements_into (hk : Fuel 0 n k leader) (hs : SessionInto R view s s')
    {ss ss' : List Stmt} (h : StmtsInto R none [] ss ss')
    (hfault : ∀ f, (s.runStatements n ss).halt ≠ some (.fault f)) :
    StepInto R view leader (s.runStatements n ss) (s'.runStatements k ss') := by
  induction ss generalizing ss' s s' with
  | nil =>
    cases h with
    | nil => exact .ends hs rfl rfl
  | cons statement rest ih =>
    cases h with
    | @cons _ _ _ statement' _ rest' h hrest =>
      have hfirst : ∀ f, (s.runStatement n statement).halt ≠ some (.fault f) := by
        intro f hf
        rw [runStatements_halted hf] at hfault
        exact hfault f hf
      have hmore : Session.Precedes view _ _ :=
        runStatements_precedes n (s.runStatement n statement).session rest
      have hmore' : Session.Precedes view _ _ :=
        runStatements_precedes k (s'.runStatement k statement').session rest'
      cases runStatement_into hview hk hs h hfirst with
      | ends hboth hhalt hhalt' =>
        rw [runStatements_next hhalt] at hfault ⊢
        rw [runStatements_next hhalt']
        exact ih hboth hrest hfault
      | short hleader hhalt hbehind =>
        rw [runStatements_halted hhalt]
        refine .short hleader hhalt (hbehind.trans ?_)
        rw [Session.runStatements]
        split
        · exact .refl _
        · exact hmore'
      | long hleader hhalt hbehind =>
        rw [runStatements_halted hhalt]
        refine .long hleader hhalt (hbehind.trans ?_)
        rw [Session.runStatements]
        split
        · exact .refl _
        · exact hmore

/-- **A run** of a program and of the same program written out. -/
theorem run_into (hk : Fuel 0 n k leader) (hs : SessionInto R view s s') {ss ss' : List Stmt}
    (h : StmtsInto R none [] ss ss') (m : Manner)
    (hfault : ∀ f, (m.run n s ss).halt ≠ some (.fault f)) :
    StepInto R view leader (m.run n s ss) (m.run k s' ss') := by
  cases m with
  | line => exact runStatements_into hview hk hs h hfault
  | file =>
    obtain ⟨φ, hm⟩ := hs.machine
    unfold Manner.run at hfault ⊢
    dsimp only at hfault ⊢
    cases runAll_into hk hm.global h _ _ hm with
    | ends hends => exact settle_into hview hs hends hfault
    | short hleader hstarved hbehind =>
      rw [settle_starved hstarved]
      exact .short hleader rfl (behind hs.reports.symm hbehind (settle_machine s' _) (reports_settle s' _))
    | long hleader hstarved hbehind =>
      rw [settle_starved hstarved]
      exact .long hleader rfl (behind hs.reports hbehind (settle_machine s _) (reports_settle s _))

end Steps

/-! ## 4. What is seen -/

/-- What is seen of a step, with the places of its reports seen through `view`. -/
def Seen.through (view : Position → Position) (o : Seen) : Seen :=
  { o with reports := o.reports.map (Report.mapPos view) }

/-- **What is seen to have been written, read and reported** is a beginning of what is seen elsewhere. -/
structure Seen.Precedes (o o' : Seen) : Prop where
  reports : o.reports <+: o'.reports
  sink : o.sink.Extends o'.sink
  input : o'.input.forProgram <:+ o.input.forProgram

/-- **What one run shows, another one shows as well**, given fuel enough: all of it, if the first has fuel
    enough itself, and else as much as the first has come to. -/
structure Follows (o o' : Nat → Seen) : Prop where
  ends : ∀ n, (o n).starved = false → ∃ enough, ∀ k, enough ≤ k → o' k = o n
  goesOn : ∀ n, ∃ enough, ∀ k, enough ≤ k → (o n).Precedes (o' k)

/-- **Two runs** that show the same, however much fuel it takes. -/
structure RunAlike (o o' : Nat → Seen) : Prop where
  there : Follows o o'
  back : Follows o' o

theorem Seen.Precedes.of_eq {o o' : Seen} (h : o' = o) : o.Precedes o' := by
  subst h
  exact ⟨List.prefix_refl _, .refl _, List.suffix_refl _⟩

theorem Session.Precedes.seen {t t' : Step} (h : t.session.Precedes view t'.session) :
    (t.seen.through view).Precedes (t'.seen.through view) :=
  ⟨h.reports, h.machine.written, h.machine.read⟩

theorem SessionInto.seen {t t' : Step} (h : SessionInto R view t.session t'.session)
    (hhalt : t.halt = none) (hhalt' : t'.halt = none) :
    t'.seen.through view = t.seen.through view := by
  obtain ⟨φ, hm⟩ := h.machine
  have hreports := h.reports
  unfold Diagnostics.through at hreports
  unfold Seen.through Step.seen Session.names
  dsimp only
  rw [hreports, h.hasStatic, h.hasRuntime, hm.sink, hm.input, hm.names, hhalt, hhalt']

/-- Whichever of two runs leads. -/
theorem runAlike_of_steps {t t' : Nat → Step}
    (h : ∀ leader n k, Fuel 0 n k leader → StepInto R view leader (t n) (t' k)) :
    RunAlike (fun n => (t n).seen.through view) (fun k => (t' k).seen.through view) where
  there := by
    refine ⟨fun n hn => ⟨enough n, fun k hk => ?_⟩, fun n => ⟨enough n, fun k hk => ?_⟩⟩
    · cases h .short n k hk with
      | ends hboth hhalt hhalt' => exact hboth.seen hhalt hhalt'
      | short _ hhalt _ =>
        have hstarved : decide ((t n).halt = some .starved) = false := hn
        rw [hhalt] at hstarved
        cases hstarved
      | long hleader => cases hleader
    · cases h .short n k hk with
      | ends hboth hhalt hhalt' => exact .of_eq (hboth.seen hhalt hhalt')
      | short _ _ hbehind => exact hbehind.seen
      | long hleader => cases hleader
  back := by
    refine ⟨fun k hk => ⟨k, fun n hn => ?_⟩, fun k => ⟨k, fun n hn => ?_⟩⟩
    · cases h .long n k hn with
      | ends hboth hhalt hhalt' => exact (hboth.seen hhalt hhalt').symm
      | long _ hhalt _ =>
        have hstarved : decide ((t' k).halt = some .starved) = false := hk
        rw [hhalt] at hstarved
        cases hstarved
      | short hleader => cases hleader
    · cases h .long n k hn with
      | ends hboth hhalt hhalt' => exact .of_eq (hboth.seen hhalt hhalt').symm
      | long _ _ hbehind => exact hbehind.seen
      | short hleader => cases hleader

/-! ## 5. Programs that are let through -/

/-- **A session that has resolved a tree**, as it does with what it reads of a source. The next reference is
    `nextId`. -/
def Session.prepared (s : Session) (program : List Stmt) (nextId : Nat) : Session :=
  ⟨{ s.machine with distances := s.machine.distances.noteAll (resolve program) }, nextId, .empty⟩

theorem accept_prepared {s s₁ : Session} {source : String} {program : List Stmt}
    (h : s.accept source = (s₁, some program)) : s₁ = s.prepared program s₁.nextId := by
  rcases accept_phases s source with ⟨_, hnone, -, -⟩ | ⟨k, hsome⟩
  · rw [h] at hnone
    cases hnone
  · rw [h] at hsome
    cases hsome
    rfl

section Accepted

variable {fuel : Nat} {s s₁ : Session} {source : String} {program program' : List Stmt} {b : Nat}

/-- Nothing that may happen is left out. -/
def World.any : World := ⟨fun _ => True, fun _ => True⟩

theorem World.any_closed : World.any.calls.Closed := fun _ _ _ _ _ _ _ => trivial

theorem covered_any (fuel : Nat) (s : Session) (entry : Entry) : Covered .any fuel s entry :=
  ⟨fun _ _ _ _ _ => trivial, fun _ _ _ => trivial⟩

theorem Reached.sound_any (h : Reached fuel s) : Sound .any s := by
  obtain ⟨sink, input, now, clock, entries, rfl⟩ := h
  induction entries using List.reverseRecOn with
  | nil => exact start_sound _ sink input now clock
  | append_singleton before entry ih =>
    have hfed := feed_ok World.any_closed ih (covered_any fuel _ entry)
    unfold Session.after
    rw [List.foldl_append]
    exact hfed.1

/-- **A program that is let through never faults**, whatever fuel it has. -/
theorem Reached.never_faults (h : Reached fuel s) (haccept : s.accept source = (s₁, some program))
    (m : Manner) (n : Nat) (f : Fault) : (m.run n s₁ program).halt ≠ some (.fault f) := by
  have hpasses : Passes source := (accept_isSome_iff s source).mp (by rw [haccept]; rfl)
  have hfed := (feed_ok World.any_closed h.sound_any (covered_any n s (m.entry source))).2 f
  rw [feed_passes hpasses, haccept] at hfed
  have hprogram := accept_passes hpasses s
  rw [haccept] at hprogram
  rw [Option.some.inj (congrArg Prod.snd hprogram)]
  exact hfed

theorem accepted_clean (haccept : s.accept source = (s₁, some program)) : Clean (resolve program) := by
  have hpasses : Passes source := (accept_isSome_iff s source).mp (by rw [haccept]; rfl)
  have hprogram := accept_passes hpasses s
  rw [haccept] at hprogram
  rw [Option.some.inj (congrArg Prod.snd hprogram)]
  exact complaintsOf_eq_nil.mp (hpasses.resolved s.nextId)

theorem accepted_noted (h : Reached fuel s) (haccept : s.accept source = (s₁, some program))
    {ref : Reference} {depth : Option Nat} (hf : .reference ref depth ∈ resolve program) :
    s₁.machine.distances.find? ref.id = depth := by
  obtain ⟨herrors, rfl⟩ := parsed_of_accept haccept
  rw [accept_prepared haccept]
  exact noted_of_parse herrors h.fresh hf

theorem accepted_numbered (haccept : s.accept source = (s₁, some program)) :
    ∃ b, Numbered s.nextId b (resolve program) := by
  obtain ⟨herrors, rfl⟩ := parsed_of_accept haccept
  exact ⟨_, (Syntax.parse_derives herrors).resolve_numbered⟩

/-- Each reference is noted where scoping found it, if references are new and each means one variable. -/
theorem prepared_noted (h : Reached fuel s) (hnumbered : Numbered s.nextId b (resolve program'))
    {ref : Reference} {depth : Option Nat} (hf : .reference ref depth ∈ resolve program') :
    (s.prepared program' b).machine.distances.find? ref.id = depth :=
  Distances.find?_noteAll_new (h.fresh ref.id (hnumbered.range ref depth hf).1) hf
    fun ref' depth' hf' hid => hnumbered.single ref' ref depth' depth hf' hf hid

/-- What was noted before stays. -/
theorem prepared_before (hnumbered : Numbered s.nextId b (resolve program')) {id : RefId}
    (hid : id.index < s.nextId) :
    (s.machine.distances.noteAll (resolve program')).find? id = s.machine.distances.find? id :=
  Distances.find?_noteAll_same fun ref depth hf href =>
    absurd (href ▸ (hnumbered.range ref depth hf).1) (Nat.not_le_of_lt hid)

/-- **The written-out program keeps the rules**, and its references mean what they mean in the short one. -/
theorem prepared_into (h : Reached fuel s) (haccept : s.accept source = (s₁, some program))
    (hinto : StmtsInto R none [] program program')
    (hnumbered : Numbered s.nextId b (resolve program')) (view : Position → Position) :
    let table := s₁.machine.distances
    let table' := (s.prepared program' b).machine.distances
    Clean (resolve program') ∧ StmtsInto (R.noted table table') none [] program program' ∧
      SessionInto (R.noted table table') view s₁ (s.prepared program' b) := by
  intro table table'
  let ρ : Resolution := ⟨resolve program, resolve program', table, table', accepted_clean haccept,
    fun _ _ => accepted_noted h haccept, fun _ _ => prepared_noted h hnumbered⟩
  obtain ⟨hnoted, hclean⟩ := resolve_noted (ρ := ρ) hinto (shaped_of_accept haccept)
    (List.Subset.refl _) (List.Subset.refl _)
  refine ⟨hclean, hnoted, ?_⟩
  -- what has run before stays as it is
  have hbefore : ∀ {id : RefId}, id.index < s.nextId → table'.find? id = table.find? id := by
    intro id hid
    obtain ⟨_, hfirst⟩ := accepted_numbered haccept
    have htable : table = s.machine.distances.noteAll (resolve program) :=
      congrArg (fun s₁ => s₁.machine.distances) (accept_prepared haccept)
    rw [htable, prepared_before hfirst hid]
    exact prepared_before hnumbered hid
  have hallows : (R.noted table table').Allows (given s.nextId) .none := by
    have hshared : ∀ {slots : List Slot} {i i' : RefId}, (∀ s ∈ slots, s = .shared) →
        given s.nextId i.index i'.index →
        table'.find? i' = (table.find? i).map (distanceIn slots) := by
      intro slots i i' hslots hgiven
      obtain rfl : i' = i := RefId.mk.injEq .. ▸ hgiven.1
      rw [hbefore hgiven.2, funext (distanceIn_shared hslots)]
      exact Option.map_id'.symm
    refine ⟨hshared, fun hslots hgiven => ⟨hshared hslots hgiven, fun e _ => ?_⟩, fun hp => ?_⟩
    · rw [distanceIn_shared hslots, distanceIn_shared hslots]
    · exact hp ▸ R.pos_refl _
  obtain ⟨sink, input, now, clock, entries, rfl⟩ := h
  obtain ⟨κs, hself⟩ := (after_self .none fuel sink input now clock entries).machine
  obtain ⟨m₁, b₁, first⟩ := s₁
  obtain ⟨rfl, -, rfl⟩ := Session.mk.inj (accept_prepared haccept)
  exact ⟨⟨_, hself.into hallows id id⟩, rfl, rfl, rfl⟩

/-- **A program that a session lets through, and the same program written out.** -/
theorem written_out_runs_alike (view : Position → Position)
    (hview : ∀ p p', R.pos p p' → view p' = view p) (h : Reached fuel s)
    (haccept : s.accept source = (s₁, some program)) (hinto : StmtsInto R none [] program program')
    (hnumbered : Numbered s.nextId b (resolve program')) :
    complaintsOf (resolve program') = [] ∧ ∀ m : Manner,
      RunAlike (fun n => (m.run n s₁ program).seen.through view)
        (fun n => (m.run n (s.prepared program' b) program').seen.through view) := by
  obtain ⟨hclean, hnoted, hsession⟩ := prepared_into h haccept hinto hnumbered view
  exact ⟨complaintsOf_eq_nil.mpr hclean, fun m => runAlike_of_steps fun leader n k hk =>
    run_into (R := R.noted _ _) hview hk hsession hnoted m (h.never_faults haccept m n)⟩

end Accepted

end Lox
