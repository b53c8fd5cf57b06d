import Lox.CommandLine
import Lox.Proofs.Session.Safety

/-!
# How the command ends that runs a program

The command runs one step of a new session, flushes the output, shows the reports and exits.

* `Phase.exitCode`: the exit code by which the phase of the step is known. `finished_exits`: the command
  exits so where the output can be flushed.
* `steps_end_in_one_phase`: **every step ends in one phase**, and the command that runs a program ends as
  the phase of its step says.
* `unflushed_run_hides_its_error`: where the output cannot be flushed, the error of a program is neither
  shown nor told by the exit code.
-/

namespace Lox

open CommandLine

/-- The exit code of a command whose step ended in a phase, with some reports. -/
def Phase.exitCode (reports : List Report) : Phase → Nat
  | .reading | .scoping => 65
  | .running => if reports = [] then 0 else 70

/-- A file that holds text is read. -/
theorem withSource_text {bytes : List UInt8} (h : Text.Utf8.firstFault? bytes = none) (path : String)
    (ending : List UInt8 → Ending) : withSource path (.ok bytes) ending = ending bytes := by
  simp only [withSource, h]

/-- What the command comes to, from what its step comes to. -/
theorem run_eq {fuel : Nat} {o : Outside} {source : List UInt8} {halt : Option Halt}
    (h : (o.start.runFile fuel (Text.Utf8.lossy source)).halt = halt) :
    CommandLine.run fuel o source =
      let s := (o.start.runFile fuel (Text.Utf8.lossy source)).session
      halt.elim (.exits (finished s)) (.ofHalt (stdoutOf s) "") := by
  unfold CommandLine.run
  dsimp only
  rw [h]
  cases halt <;> rfl

section Exits

variable {fuel : Nat} {s : Session} {step : Step} {source : String} {phase : Phase}

theorem exitOf_refused (h : Refused s step) : exitOf step.session.diagnostics = 65 := by
  rw [exitOf, h.hasStatic]
  rfl

theorem exitOf_ran (h : FileRan fuel s source step) : exitOf step.session.diagnostics =
    if step.session.diagnostics.reports = [] then 0 else 70 := by
  rw [exitOf, h.hasStatic, h.hasRuntime]
  cases step.session.diagnostics.reports <;> rfl

/-- **The exit code goes by the phase.** -/
theorem EndsIn.exitOf (h : EndsIn phase s step (FileRan fuel s source step)) :
    CommandLine.exitOf step.session.diagnostics
      = phase.exitCode step.session.diagnostics.reports := by
  cases phase with
  | reading | scoping => exact exitOf_refused h.does
  | running => exact exitOf_ran h.does

/-- A step that goes on to no end has run its source. -/
theorem EndsIn.running (h : EndsIn phase s step (FileRan fuel s source step))
    (hhalt : step.halt ≠ none) : phase = .running := by
  cases phase with
  | running => rfl
  | reading | scoping => exact absurd (Refused.halt h.does) hhalt

theorem finished_exits {e : CommandLine.Ending}
    (h : EndsIn phase s step (FileRan fuel s source step)) (he : e = .exits (finished step.session)) :
    (step.session.machine.sink.flush.1 = .ok () ∧
      e = .exits ⟨phase.exitCode step.session.diagnostics.reports, stdoutOf step.session,
        reportLines step.session.diagnostics.reports⟩) ∨
    ∃ c, step.session.machine.sink.flush.1 = .error c ∧
      e = .exits ⟨1, stdoutOf step.session, failureLines c.message []⟩ := by
  subst he
  unfold finished
  cases step.session.machine.sink.flush.1 with
  | ok _ => exact .inl ⟨rfl, by rw [h.exitOf]⟩
  | error c =>
    refine .inr ⟨c, rfl, ?_⟩
    dsimp only [unflushed]
    rw [String.empty_append]
    rfl

end Exits

/-- **Every step ends in one phase**, from whatever session it starts. Where the source is refused,
    nothing is run; else the statements of the source are.

    The command that runs a program does not end before its step does, and then flushes the output. Where
    that succeeds, it shows the reports, and exits with 65 if the source was refused, and with 70 if its
    run was cut short. Where it fails, the command exits with 1 and shows no report. -/
theorem steps_end_in_one_phase (fuel : Nat) (s : Session) (source : String) :
    (∃ phase, EndsIn phase s (s.runFile fuel source)
      (FileRan fuel s source (s.runFile fuel source))) ∧
    (∃ phase, EndsIn phase s (s.runLine fuel source)
      (LineRan fuel s source (s.runLine fuel source))) ∧
    ∀ path bytes (o : Outside), Text.Utf8.firstFault? bytes = none →
      let step := o.start.runFile fuel (Text.Utf8.lossy bytes)
      let ending := ending fuel (.run path) (.ok bytes) o
      let reports := step.session.diagnostics.reports
      let stdout := stdoutOf step.session
      let flushed := step.session.machine.sink.flush.1
      ∃ phase, EndsIn phase o.start step (FileRan fuel o.start (Text.Utf8.lossy bytes) step) ∧
        ((step.halt = some .starved ∧ phase = .running ∧ ending = .starves stdout "") ∨
          step.halt = none ∧
            ((flushed = .ok () ∧
                ending = .exits ⟨phase.exitCode reports, stdout, reportLines reports⟩) ∨
              ∃ e, flushed = .error e ∧ ending = .exits ⟨1, stdout, failureLines e.message []⟩)) := by
  refine ⟨runFile_ends fuel s source, runLine_ends fuel s source, ?_⟩
  intro path bytes o hbytes step ending reports stdout flushed
  obtain ⟨phase, hphase⟩ := runFile_ends fuel o.start (Text.Utf8.lossy bytes)
  refine ⟨phase, hphase, ?_⟩
  have hrun : ending = CommandLine.run fuel o bytes := withSource_text hbytes path _
  -- nothing that the command reaches is a fault of the machine
  have hreached : Reached fuel o.start := ⟨o.sink, o.input, o.now, o.clock, [], rfl⟩
  obtain ⟨w, hclosed, hsound, hcovered⟩ := hreached.sound (.file (Text.Utf8.lossy bytes))
  have hfault : ∀ f, step.halt ≠ some (.fault f) := (feed_ok hclosed hsound hcovered).2
  cases hhalt : step.halt with
  | none => exact .inr ⟨rfl, finished_exits hphase (hrun.trans (run_eq hhalt))⟩
  | some halt =>
    cases halt with
    | fault f => exact absurd hhalt (hfault f)
    | starved =>
      have hne : step.halt ≠ none := by
        rw [hhalt]
        exact Option.some_ne_none _
      exact .inl ⟨rfl, hphase.running hne, hrun.trans (run_eq hhalt)⟩

/-- A program that is accepted and fails, whose output can be flushed. -/
theorem steps_end_in_one_phase_running :
    let bytes := Text.Utf8.encode "x;"
    let o : Outside := ⟨.unlimited, .ofBytes [], 0, .steady⟩
    let report : Report := .runtime (.undefinedVariable "x" ⟨1, 1⟩)
    Text.Utf8.firstFault? bytes = none ∧
      ∃ phase : Phase, phase = .running ∧ ending 9 (.run "x.lox") (.ok bytes) o
        = .exits ⟨phase.exitCode [report], "", reportLines [report]⟩ := by
  dsimp only
  have hbytes : Text.Utf8.firstFault? (Text.Utf8.encode "x;") = none := by cbv
  obtain ⟨phase, hphase, hends⟩ := (steps_end_in_one_phase 9 (.start .unlimited (.ofBytes []) 0) "").2.2
    "x.lox" _ ⟨.unlimited, .ofBytes [], 0, .steady⟩ hbytes
  generalize hstep : Session.runFile 9 _ _ = step at hphase hends
  have hreports : step.session.diagnostics.reports = [.runtime (.undefinedVariable "x" ⟨1, 1⟩)] := by
    rw [← hstep]
    cbv
  have hhalt : step.halt = none := by
    rw [← hstep]
    cbv
  have hstdout : stdoutOf step.session = "" := by
    rw [← hstep]
    cbv
  have hflush : step.session.machine.sink.flush.1 = .ok () := by
    rw [← hstep]
    cbv
  have hphase : Phase.running = phase :=
    (hphase.only .running).mp (hreports ▸ List.forall_mem_singleton.mpr rfl)
  refine ⟨hbytes, phase, hphase.symm, ?_⟩
  rcases hends with ⟨hstarved, -⟩ | ⟨-, ⟨-, hends⟩ | ⟨e, herror, -⟩⟩
  · cases hhalt.symm.trans hstarved
  · rw [hends, hreports, hstdout]
  · cases hflush.symm.trans herror

/-- **The error of a program is lost where its output cannot be flushed**: `print(nil);` fails on a device
    that is full, and is reported, but the command does not show the report, and exits as if the program
    had come to its end with output left over. -/
theorem unflushed_run_hides_its_error :
    let cause := "No space left on device (os error 28)"
    let bytes := Text.Utf8.encode "print(nil);"
    let full : Sink := { Sink.unlimited with refusals := fun _ => some ⟨0, cause⟩ }
    let o : Outside := ⟨full, .ofBytes [], 0, .steady⟩
    let step := o.start.runFile 9 (Text.Utf8.lossy bytes)
    Text.Utf8.firstFault? bytes = none ∧ step.halt = none ∧
      step.session.diagnostics = ⟨[.runtime (.native cause ⟨1, 10⟩)], false, true⟩ ∧
      Phase.running.exitCode step.session.diagnostics.reports = 70 ∧
      ending 9 (.run "main.lox") (.ok bytes) o = .exits ⟨1, "", "Error: " ++ cause ++ "\n"⟩ := by
  dsimp only
  exact ⟨by cbv, by cbv, by cbv, by cbv, by cbv⟩

end Lox
