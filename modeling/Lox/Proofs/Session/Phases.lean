import Mathlib.Data.List.ReduceOption
import Lox.Proofs.Machine.Lookup
import Lox.Session

/-!
# The phases of a step

A step of a session ends in one phase: reading the source, scoping it, or running the program.

* `Phase.Reports`: what a phase reports. No reports are of two phases (`Phase.Reports.unique`).
* `Refused`: a step that ran nothing. It has reports, and all that it may have changed is the table of
  distances.
* `RunsFile`, `RunsLine`: the runs of a program and of a line of a prompt, statement by statement.
* `runFile_ends`, `runLine_ends`: **a step reports what its phase reports**, and does what its phase does.

Here a session is any session, whether or not it can be reached.
-/

namespace Lox

/-! ## 1. Phases -/

/-- Where a step ended. -/
inductive Phase where
  /-- The source was scanned and parsed, and is no program. -/
  | reading
  /-- The program was resolved, and breaks a rule of scoping. -/
  | scoping
  /-- The program was run. -/
  | running
deriving DecidableEq

/-- The phase that reports an error. -/
def Report.phase : Report → Phase
  | .lexical _ _ | .parse _ _ _ => .reading
  | .static _ _ _ => .scoping
  | .runtime _ | .io _ => .running

/-- **What a phase reports.** Faults of the scan stand before those of the parse, and a phase that
    refuses a source says why. -/
def Phase.Reports : Phase → List Report → Prop
  | .reading, rs => rs ≠ [] ∧ ∃ scan parse, rs = scan ++ parse ∧
      (∀ r ∈ scan, ∃ message pos, r = .lexical message pos) ∧
      ∀ r ∈ parse, ∃ message location pos, r = .parse message location pos
  | .scoping, rs => rs ≠ [] ∧ ∀ r ∈ rs, ∃ message lexeme pos, r = .static message lexeme pos
  | .running, rs => ∀ r ∈ rs, r.isStatic = false

theorem Report.isStatic_iff (r : Report) : r.isStatic = true ↔ r.phase ≠ .running := by
  cases r <;> simp [Report.isStatic, Report.phase]

theorem Phase.Reports.phase {p : Phase} {rs : List Report} (h : p.Reports rs) :
    ∀ r ∈ rs, r.phase = p := by
  intro r hr
  cases p with
  | reading =>
    obtain ⟨-, scan, parse, rfl, hscan, hparse⟩ := h
    rcases List.mem_append.mp hr with hr | hr
    · obtain ⟨_, _, rfl⟩ := hscan r hr
      rfl
    · obtain ⟨_, _, _, rfl⟩ := hparse r hr
      rfl
  | scoping =>
    obtain ⟨_, _, _, rfl⟩ := h.2 r hr
    rfl
  | running =>
    have hstatic := h r hr
    cases r with
    | runtime | io => rfl
    | lexical | parse | static => cases hstatic

/-- Reports are those of one phase at most. -/
theorem Phase.Reports.unique {p q : Phase} {rs : List Report} (hp : p.Reports rs)
    (hq : q.Reports rs) : p = q := by
  cases rs with
  | nil =>
    -- only a run may have nothing to report
    cases p with
    | running =>
      cases q with
      | running => rfl
      | reading | scoping => exact absurd rfl hq.1
    | reading | scoping => exact absurd rfl hp.1
  | cons r rest =>
    exact (hp.phase r List.mem_cons_self).symm.trans (hq.phase r List.mem_cons_self)

namespace Diagnostics

theorem reportAll_eq (d : Diagnostics) (rs : List Report) :
    d.reportAll rs = ⟨d.reports ++ rs, d.hasStatic || rs.any (·.isStatic),
      d.hasRuntime || rs.any fun r => !r.isStatic⟩ := by
  unfold reportAll
  induction rs generalizing d with
  | nil => simp
  | cons r rest ih => rw [List.foldl_cons, ih]; simp [report, Bool.or_assoc]

/-- The reports of a phase that refuses a source. -/
theorem reportAll_static {rs : List Report} (hne : rs ≠ []) (h : ∀ r ∈ rs, r.isStatic = true) :
    Diagnostics.empty.reportAll rs = ⟨rs, true, false⟩ := by
  obtain ⟨r, hr⟩ := List.exists_mem_of_ne_nil rs hne
  have hany : rs.any (·.isStatic) = true := List.any_eq_true.mpr ⟨r, hr, h r hr⟩
  have hnone : (rs.any fun r => !r.isStatic) = false :=
    List.any_eq_false.mpr fun r hr => by simp [h r hr]
  rw [reportAll_eq, hany, hnone]
  rfl

/-- The reports of a run. -/
theorem reportAll_running {d : Diagnostics} {rs : List Report} (h : ∀ r ∈ rs, r.isStatic = false) :
    d.reportAll rs = ⟨d.reports ++ rs, d.hasStatic, d.hasRuntime || !rs.isEmpty⟩ := by
  have hany : rs.any (·.isStatic) = false := List.any_eq_false.mpr fun r hr => by simp [h r hr]
  have hall : (rs.any fun r => !r.isStatic) = !rs.isEmpty := by
    cases rs with
    | nil => rfl
    | cons r rest => simp [h r List.mem_cons_self]
  rw [reportAll_eq, hany, hall, Bool.or_false]

end Diagnostics

/-! ## 2. The front end -/

/-- The statements of a source, read in a session. -/
def Session.programOf (s : Session) (source : String) : List Stmt :=
  (Reading.ofBytes (Text.Utf8.encode source) s.nextId).statements

/-- The machine on which a source is run: what scoping notes is in the table, and nothing else is
    changed. -/
def Session.loaded (s : Session) (source : String) : Machine :=
  { s.machine with distances := s.machine.distances.noteAll (resolve (s.programOf source)) }

/-- **A step that ran nothing**: it refused its source, wrote nothing, read nothing, and changed no
    variable and no field. -/
structure Refused (s : Session) (step : Step) : Prop where
  hasStatic : step.session.diagnostics.hasStatic = true
  hasRuntime : step.session.diagnostics.hasRuntime = false
  halt : step.halt = none
  sink : step.session.machine.sink = s.machine.sink
  input : step.session.machine.input = s.machine.input
  store : step.session.machine.store = s.machine.store
  now : step.session.machine.now = s.machine.now
  clock : step.session.machine.clock = s.machine.clock

/-- The reports of a source that is no program: those of the scan, and behind them those of the parse. -/
theorem reading_reports (bytes : List UInt8) (k : Nat) (h : (Reading.ofBytes bytes k).reports ≠ []) :
    Phase.reading.Reports (Reading.ofBytes bytes k).reports := by
  refine ⟨h, _, _, rfl, fun r hr => ?_, fun r hr => ?_⟩
  · obtain ⟨e, -, rfl⟩ := List.mem_map.mp hr
    exact ⟨_, _, rfl⟩
  · obtain ⟨e, -, rfl⟩ := List.mem_map.mp hr
    exact ⟨_, _, _, rfl⟩

theorem scoping_reports {complaints : List (StaticComplaint × Token)}
    (h : complaints.map Report.ofScope ≠ []) :
    Phase.scoping.Reports (complaints.map Report.ofScope) := by
  refine ⟨h, fun r hr => ?_⟩
  obtain ⟨c, -, rfl⟩ := List.mem_map.mp hr
  exact ⟨_, _, _, rfl⟩

/-- **The front end** refuses a source in one of its two phases, or hands its statements over with
    nothing reported. -/
theorem accept_phases (s : Session) (source : String) :
    (∃ s', s.accept source = (s', none) ∧ Refused s ⟨s', none⟩ ∧
      (Phase.reading.Reports s'.diagnostics.reports ∨
        Phase.scoping.Reports s'.diagnostics.reports)) ∨
    ∃ k, s.accept source = (⟨s.loaded source, k, .empty⟩, some (s.programOf source)) := by
  have hrefused : ∀ {p : Phase} {rs : List Report} (d : Distances) (k : Nat), p ≠ .running →
      p.Reports rs → rs ≠ [] →
      let s' := Session.report ⟨{ s.machine with distances := d }, k, .empty⟩ rs
      Refused s ⟨s', none⟩ ∧ p.Reports s'.diagnostics.reports := by
    intro p rs d k hp hrs hne s'
    have hstatic : ∀ r ∈ rs, r.isStatic = true := fun r hr =>
      (Report.isStatic_iff r).mpr (hrs.phase r hr ▸ hp)
    have hd : s'.diagnostics = ⟨rs, true, false⟩ := Diagnostics.reportAll_static hne hstatic
    exact ⟨⟨congrArg Diagnostics.hasStatic hd, congrArg Diagnostics.hasRuntime hd,
      rfl, rfl, rfl, rfl, rfl, rfl⟩, congrArg Diagnostics.reports hd ▸ hrs⟩
  unfold Session.accept
  dsimp only
  split
  · next hne =>
    obtain ⟨hr, hreports⟩ := hrefused s.machine.distances _ (by decide) (reading_reports _ _ hne) hne
    exact .inl ⟨_, rfl, hr, .inl hreports⟩
  · split
    · next hne =>
      obtain ⟨hr, hreports⟩ := hrefused _ _ (by decide) (scoping_reports hne) hne
      exact .inl ⟨_, rfl, hr, .inr hreports⟩
    · exact .inr ⟨_, rfl⟩

/-! ## 3. Runs -/

/-- The report of a computation that stopped, if it is the program that failed. -/
def Stop.report? : Stop → Option Report
  | .error e => some (.runtime e)
  | .fault _ | .starved => none

/-- Why a session cannot go on after a computation that stopped, if so. -/
def Stop.halt? : Stop → Option Halt
  | .error _ => none
  | .fault f => some (.fault f)
  | .starved => some .starved

/-- **A program runs** to its end, or up to the first statement that stops. -/
inductive RunsFile (fuel : Nat) : Machine → List Stmt → Machine → Option Stop → Prop where
  | finished {m} : RunsFile fuel m [] m none
  | next {m m₁ m₂ statement signal rest r}
      (hrun : (execute fuel statement Store.globals).run m = (.ok signal, m₁))
      (hrest : RunsFile fuel m₁ rest m₂ r) : RunsFile fuel m (statement :: rest) m₂ r
  | stopped {m m₁ statement rest stop}
      (hrun : (execute fuel statement Store.globals).run m = (.error stop, m₁)) :
      RunsFile fuel m (statement :: rest) m₁ (some stop)

/-- What a statement of a line comes to: the machine behind it, and what is reported if it fails. -/
inductive Settles (fuel : Nat) (m : Machine) : Stmt → Machine → Option Report → Prop where
  | shown {e v m₁ m₂} (hrun : (evaluate fuel e Store.globals).run m = (.ok v, m₁))
      (hecho : (echo v).run m₁ = (.ok (.ok ()), m₂)) : Settles fuel m (.expr e) m₂ none
  | unshown {e v c m₁ m₂} (hrun : (evaluate fuel e Store.globals).run m = (.ok v, m₁))
      (hecho : (echo v).run m₁ = (.ok (.error c), m₂)) :
      Settles fuel m (.expr e) m₂ (some (.io c.message))
  | finished {statement signal m₁} (hexpr : ∀ e, statement ≠ .expr e)
      (hrun : (execute fuel statement Store.globals).run m = (.ok signal, m₁)) :
      Settles fuel m statement m₁ none
  | failed {statement e m₁} (hrun : (perform fuel statement).run m = (.error (.error e), m₁)) :
      Settles fuel m statement m₁ (some (.runtime e))

/-- **A line runs** statement by statement, whether or not one fails. Only a halt ends it early. -/
inductive RunsLine (fuel : Nat) :
    Machine → List Stmt → Machine → List (Option Report) → Option Halt → Prop where
  | finished {m} : RunsLine fuel m [] m [] none
  | next {m m₁ m₂ statement rest outcome outcomes halt}
      (hfirst : Settles fuel m statement m₁ outcome)
      (hrest : RunsLine fuel m₁ rest m₂ outcomes halt) :
      RunsLine fuel m (statement :: rest) m₂ (outcome :: outcomes) halt
  | halted {m m₁ statement rest stop halt}
      (hrun : (perform fuel statement).run m = (.error stop, m₁)) (hstop : stop.halt? = some halt) :
      RunsLine fuel m (statement :: rest) m₁ [] (some halt)

section Runs

variable {fuel : Nat} {m m' : Machine} {ss : List Stmt} {outcomes : List (Option Report)}
  {halt : Option Halt}

/-- A line that no halt ends runs all its statements. -/
theorem RunsLine.length_outcomes (h : RunsLine fuel m ss m' outcomes halt) (hhalt : halt = none) :
    outcomes.length = ss.length := by
  induction h with
  | finished => rfl
  | next _ _ ih => rw [List.length_cons, List.length_cons, ih hhalt]
  | halted => cases hhalt

theorem Settles.not_static {statement : Stmt} {r : Report}
    (h : Settles fuel m statement m' (some r)) : r.isStatic = false := by
  cases h with
  | unshown | failed => rfl

theorem RunsLine.not_static (h : RunsLine fuel m ss m' outcomes halt) :
    ∀ r ∈ outcomes.reduceOption, r.isStatic = false := by
  induction h with
  | finished | halted => exact fun r hr => nomatch hr
  | @next _ _ _ _ _ outcome _ _ hfirst _ ih =>
    cases outcome with
    | none => exact ih
    | some r => exact List.forall_mem_cons.mpr ⟨hfirst.not_static, ih⟩

theorem runAll_runs (fuel : Nat) (ss : List Stmt) (m : Machine) :
    match (runAll fuel ss).run m with
    | (.ok _, m') => RunsFile fuel m ss m' none
    | (.error stop, m') => RunsFile fuel m ss m' (some stop) := by
  induction ss generalizing m with
  | nil => exact .finished
  | cons statement rest ih =>
    rw [runAll]
    cases hrun : (execute fuel statement Store.globals).run m with
    | mk r m₁ =>
      cases r with
      | error stop =>
        rw [run_bind_error hrun]
        exact .stopped hrun
      | ok signal =>
        rw [run_bind_ok hrun]
        have hrest := ih m₁
        split at hrest
        · exact .next hrun hrest
        · exact .next hrun hrest

/-- A mapped computation yields what the computation yields, mapped. -/
theorem run_map_inv {α β : Type} {g : α → β} {x : Run α} {b : β}
    (h : (g <$> x).run m = (.ok b, m')) : ∃ a, b = g a ∧ x.run m = (.ok a, m') := by
  cases hx : x.run m with
  | mk r m₁ =>
    cases r with
    | ok a =>
      rw [run_map_ok hx] at h
      cases h
      exact ⟨a, rfl, rfl⟩
    | error e =>
      rw [run_map_error hx] at h
      cases h

/-- An expression at the top yields its value, any other statement a signal. -/
theorem perform_ok {statement : Stmt} {y : Yield}
    (h : (perform fuel statement).run m = (.ok y, m')) :
    (∃ e v, statement = .expr e ∧ y = .value v ∧
      (evaluate fuel e Store.globals).run m = (.ok v, m')) ∨
    ∃ signal, (∀ e, statement ≠ .expr e) ∧ y = .signal signal ∧
      (execute fuel statement Store.globals).run m = (.ok signal, m') := by
  cases statement with
  | expr e =>
    obtain ⟨v, rfl, hv⟩ := run_map_inv h
    exact .inl ⟨e, v, rfl, rfl, hv⟩
  | _ =>
    obtain ⟨signal, rfl, hs⟩ := run_map_inv h
    exact .inr ⟨signal, fun _ => nofun, rfl, hs⟩

/-- A statement of a line is settled, with its report if it failed, or else it halts the session. -/
theorem runStatement_settles (fuel : Nat) (s : Session) (statement : Stmt) :
    let step := s.runStatement fuel statement
    (∃ outcome, Settles fuel s.machine statement step.session.machine outcome ∧ step.halt = none ∧
      step.session.diagnostics = s.diagnostics.reportAll outcome.toList) ∨
    ∃ stop halt, (perform fuel statement).run s.machine = (.error stop, step.session.machine) ∧
      stop.halt? = some halt ∧ step.halt = some halt ∧ step.session.diagnostics = s.diagnostics := by
  rw [Session.runStatement]
  cases hrun : (perform fuel statement).run s.machine with
  | mk r m₁ =>
    cases r with
    | error stop =>
      cases stop with
      | error e => exact .inl ⟨_, .failed hrun, rfl, rfl⟩
      | fault f => exact .inr ⟨_, _, rfl, rfl, rfl, rfl⟩
      | starved => exact .inr ⟨_, _, rfl, rfl, rfl, rfl⟩
    | ok y =>
      rcases perform_ok hrun with ⟨e, v, rfl, rfl, hv⟩ | ⟨signal, hexpr, rfl, hs⟩
      · cases hecho : (echo v).run m₁ with
        | mk r m₂ =>
          simp only [hecho]
          match r with
          | .ok (.ok ()) => exact .inl ⟨none, .shown hv hecho, rfl, rfl⟩
          | .ok (.error c) => exact .inl ⟨some _, .unshown hv hecho, rfl, rfl⟩
          | .error stop => cases hecho
      · exact .inl ⟨none, .finished hexpr hs, rfl, rfl⟩

/-- A statement that halts the session is the last. -/
theorem runStatements_halted {s : Session} {statement : Stmt} {halt : Halt}
    (h : (s.runStatement fuel statement).halt = some halt) (rest : List Stmt) :
    s.runStatements fuel (statement :: rest) = s.runStatement fuel statement := by
  rw [Session.runStatements, h]

theorem runStatements_next {s : Session} {statement : Stmt}
    (h : (s.runStatement fuel statement).halt = none) (rest : List Stmt) :
    s.runStatements fuel (statement :: rest)
      = (s.runStatement fuel statement).session.runStatements fuel rest := by
  rw [Session.runStatements, h]

theorem settle_machine {α : Type} (s : Session) (r : Except Stop α × Machine) :
    (s.settle r).session.machine = r.2 := by
  obtain ⟨r, m⟩ := r
  cases r with
  | ok a => rfl
  | error stop => cases stop <;> rfl

/-- **A line** runs, and reports what its statements report, in order. -/
theorem runStatements_runs (fuel : Nat) (ss : List Stmt) (s : Session) :
    let step := s.runStatements fuel ss
    ∃ outcomes, RunsLine fuel s.machine ss step.session.machine outcomes step.halt ∧
      step.session.diagnostics = s.diagnostics.reportAll outcomes.reduceOption := by
  induction ss generalizing s with
  | nil => exact ⟨[], .finished, rfl⟩
  | cons statement rest ih =>
    rw [Session.runStatements]
    rcases runStatement_settles fuel s statement with
      ⟨outcome, hsettles, hhalt, hd⟩ | ⟨stop, halt, hrun, hstop, hhalt, hd⟩
    · obtain ⟨outcomes, hrest, hreports⟩ := ih (s.runStatement fuel statement).session
      simp only [hhalt]
      refine ⟨outcome :: outcomes, .next hsettles hrest, hreports.trans ?_⟩
      rw [hd]
      cases outcome with
      | none => rfl
      | some r => rfl
    · simp only [hhalt]
      exact ⟨[], .halted hrun hstop, hd⟩

end Runs

/-! ## 4. Steps -/

/-- **A program was run**: its reports are that of the statement that stopped it, if that failed. -/
structure FileRan (fuel : Nat) (s : Session) (source : String) (step : Step) : Prop where
  hasStatic : step.session.diagnostics.hasStatic = false
  hasRuntime : step.session.diagnostics.hasRuntime = !step.session.diagnostics.reports.isEmpty
  runs : ∃ stop, RunsFile fuel (s.loaded source) (s.programOf source) step.session.machine stop ∧
    step.session.diagnostics.reports = (stop.bind Stop.report?).toList ∧
    step.halt = stop.bind Stop.halt?

/-- **A line was run**: its reports are those of its statements that failed, in order. -/
structure LineRan (fuel : Nat) (s : Session) (source : String) (step : Step) : Prop where
  hasStatic : step.session.diagnostics.hasStatic = false
  hasRuntime : step.session.diagnostics.hasRuntime = !step.session.diagnostics.reports.isEmpty
  runs : ∃ outcomes,
    RunsLine fuel (s.loaded source) (s.programOf source) step.session.machine outcomes step.halt ∧
    step.session.diagnostics.reports = outcomes.reduceOption ∧
    (step.halt = none → outcomes.length = (s.programOf source).length)

/-- What a step does that ends in a phase, where `ran` says how it ran if it came to that. -/
def Phase.Does (s : Session) (step : Step) (ran : Prop) : Phase → Prop
  | .reading | .scoping => Refused s step
  | .running => ran

/-- **A step ends in a phase**: its reports are of that phase and of no other, and it does what the phase
    does. -/
structure EndsIn (phase : Phase) (s : Session) (step : Step) (ran : Prop) : Prop where
  only : ∀ p : Phase, p.Reports step.session.diagnostics.reports ↔ p = phase
  does : phase.Does s step ran

theorem EndsIn.of_reports {phase : Phase} {s : Session} {step : Step} {ran : Prop}
    (h : phase.Reports step.session.diagnostics.reports) (hdoes : phase.Does s step ran) :
    EndsIn phase s step ran :=
  ⟨fun _ => ⟨fun hp => hp.unique h, fun hp => hp ▸ h⟩, hdoes⟩

theorem Refused.ends {s s' : Session} {ran : Prop} (hrefused : Refused s ⟨s', none⟩)
    (h : Phase.reading.Reports s'.diagnostics.reports ∨
      Phase.scoping.Reports s'.diagnostics.reports) : ∃ phase, EndsIn phase s ⟨s', none⟩ ran := by
  rcases h with h | h
  · exact ⟨.reading, .of_reports h hrefused⟩
  · exact ⟨.scoping, .of_reports h hrefused⟩

theorem runFile_ends (fuel : Nat) (s : Session) (source : String) :
    ∃ phase, EndsIn phase s (s.runFile fuel source)
      (FileRan fuel s source (s.runFile fuel source)) := by
  rw [Session.runFile]
  rcases accept_phases s source with ⟨s', haccept, hrefused, hreports⟩ | ⟨k, haccept⟩
  · rw [haccept]
    exact hrefused.ends hreports
  · simp only [haccept]
    have hruns := runAll_runs fuel (s.programOf source) (s.loaded source)
    refine ⟨.running, ?_⟩
    split at hruns
    · next m' heq =>
      rw [heq]
      exact .of_reports (fun r hr => nomatch hr) ⟨rfl, rfl, none, hruns, rfl, rfl⟩
    · next stop m' heq =>
      rw [heq]
      cases stop with
      | error e =>
        exact .of_reports (List.forall_mem_singleton.mpr rfl) ⟨rfl, rfl, some _, hruns, rfl, rfl⟩
      | fault f => exact .of_reports (fun r hr => nomatch hr) ⟨rfl, rfl, some _, hruns, rfl, rfl⟩
      | starved => exact .of_reports (fun r hr => nomatch hr) ⟨rfl, rfl, some _, hruns, rfl, rfl⟩

theorem runLine_ends (fuel : Nat) (s : Session) (source : String) :
    ∃ phase, EndsIn phase s (s.runLine fuel source)
      (LineRan fuel s source (s.runLine fuel source)) := by
  rw [Session.runLine]
  rcases accept_phases s source with ⟨s', haccept, hrefused, hreports⟩ | ⟨k, haccept⟩
  · rw [haccept]
    exact hrefused.ends hreports
  · simp only [haccept]
    obtain ⟨outcomes, hruns, hd⟩ :=
      runStatements_runs fuel (s.programOf source) ⟨s.loaded source, k, .empty⟩
    rw [Diagnostics.reportAll_running hruns.not_static] at hd
    have hreports := congrArg Diagnostics.reports hd
    refine ⟨.running, .of_reports (hreports ▸ hruns.not_static) ⟨congrArg _ hd, ?_, outcomes, hruns,
      hreports, fun hhalt => hruns.length_outcomes hhalt⟩⟩
    rw [hd]
    rfl

end Lox
