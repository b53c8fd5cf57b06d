import Lox.Proofs.Machine.Truncation
import Lox.Proofs.Session.Phases
import Lox.Proofs.Session.Visits

/-!
# Sessions with a limited sink

A session whose sink takes `L` bytes in all, next to the same session with a sink that takes everything.

* `feed_extends`: a step adds to what its sink has taken, and changes nothing else of the sink.
* `Overflow fuel s entry L r`: a line that some call of a step prints, or that shows the value of its
  statement, is the first that does not fit, and `r` reports that.
* `CutStep`: **a step on both sinks** is the same as long as all fits; else the first line that does not
  fit is reported. `feed_cut`: every step is so.
* `full_sink_truncates`: **a limited sink takes the first bytes** of what the other takes, and what does
  not fit is reported in the step that writes it.
-/

namespace Lox

variable {α : Type} {H : History} {fuel L : Nat} {m m' : Machine} {s t : Session}
  {statement : Stmt}

/-! ## 1. What a step does to the sink -/

theorem perform_consists (hclosed : H.Closed) (h : H ⟨fuel, .ofTop statement, m⟩) :
    Consists H m (perform fuel statement) := by
  have hcall := calls_consist hclosed fuel _ m h
  cases statement <;> exact Consists.bind hcall fun _ _ _ => .pure _

/-- A program consists of few kinds of things, if its statements are in the history. -/
theorem runAll_consists (hclosed : H.Closed) {ss : List Stmt}
    (hvisited : ∀ before statement rest m', ss = before ++ statement :: rest →
      (runAll fuel before).run m = (.ok (), m') → H ⟨fuel, .execute statement Store.globals, m'⟩) :
    Consists H m (runAll fuel ss) := by
  induction ss generalizing m with
  | nil => exact .pure ()
  | cons statement rest ih =>
    have hfirst : Consists H m (execute fuel statement Store.globals) :=
      calls_consist hclosed fuel _ m (hvisited [] statement rest m rfl rfl)
    refine hfirst.bind fun _ m₁ hrun => ih fun before other more m' heq hbefore => ?_
    exact hvisited (statement :: before) other more m' (by rw [heq]; rfl)
      ((run_bind_ok hrun).trans hbefore)

/-- Any visits at all. -/
def anyVisits : History := fun _ => True

theorem anyVisits_closed : anyVisits.Closed := fun _ _ _ _ _ _ _ => trivial

theorem echo_run (v : Value) (m : Machine) : (echo v).run m
    = (.ok (m.sink.write v.line).1, { m with sink := (m.sink.write v.line).2 }) := rfl

/-- What a statement of a line does to the sink behind its run: its value may be shown. -/
theorem shown_extends {r : Except Stop Yield} (hrun : (perform fuel statement).run s.machine = (r, m)) :
    m.sink.Extends (s.runStatement fuel statement).session.machine.sink := by
  rw [Session.runStatement, hrun]
  cases r with
  | error stop =>
    simp only [settle_machine]
    exact .refl _
  | ok y =>
    cases y with
    | signal signal => exact .refl _
    | value v =>
      simp only [echo_run]
      have hextends := Sink.extends_write m.sink v.line
      cases (m.sink.write v.line).1 with
      | ok _ => exact hextends
      | error e => exact hextends

theorem runStatement_extends (fuel : Nat) (s : Session) (statement : Stmt) :
    s.machine.sink.Extends (s.runStatement fuel statement).session.machine.sink := by
  have hperform : Consists anyVisits s.machine (perform fuel statement) :=
    perform_consists anyVisits_closed trivial
  exact hperform.extends.trans (shown_extends rfl)

theorem runStatements_extends (fuel : Nat) (s : Session) (ss : List Stmt) :
    s.machine.sink.Extends (s.runStatements fuel ss).session.machine.sink := by
  induction ss generalizing s with
  | nil => exact .refl _
  | cons statement rest ih =>
    have hfirst := runStatement_extends fuel s statement
    cases hhalt : (s.runStatement fuel statement).halt with
    | some halt =>
      rw [runStatements_halted hhalt]
      exact hfirst
    | none =>
      rw [runStatements_next hhalt]
      exact hfirst.trans (ih _)

/-- Reading and scoping leave the sink alone. -/
theorem accept_sink (s : Session) (source : String) :
    (s.accept source).1.machine.sink = s.machine.sink := by
  obtain ⟨d, hmachine, -⟩ := accept_machine s source
  rw [hmachine]

/-- **A step** adds to what its sink has taken. -/
theorem feed_extends (fuel : Nat) (s : Session) {entry : Entry} (h : entry.source?.isSome = true) :
    s.machine.sink.Extends (s.feed fuel entry).session.machine.sink := by
  cases entry with
  | outside => cases h
  | file source =>
    have hsink := accept_sink s source
    show s.machine.sink.Extends (s.runFile fuel source).session.machine.sink
    rw [Session.runFile]
    split
    · next s' haccept =>
      rw [haccept] at hsink
      exact hsink ▸ .refl _
    · next s' program haccept =>
      rw [haccept] at hsink
      have hrun : Consists anyVisits s'.machine (runAll fuel program) :=
        runAll_consists anyVisits_closed fun _ _ _ _ _ _ => trivial
      rw [settle_machine, ← hsink]
      exact hrun.extends
  | line source =>
    have hsink := accept_sink s source
    show s.machine.sink.Extends (s.runLine fuel source).session.machine.sink
    rw [Session.runLine]
    split
    · next s' haccept =>
      rw [haccept] at hsink
      exact hsink ▸ .refl _
    · next s' program haccept =>
      rw [haccept] at hsink
      rw [← hsink]
      exact runStatements_extends fuel s' program

/-- What was reported stays in front. -/
theorem runStatement_reports (fuel : Nat) (s : Session) (statement : Stmt) :
    s.diagnostics.reports <+: (s.runStatement fuel statement).session.diagnostics.reports := by
  rcases runStatement_settles fuel s statement with ⟨_, -, -, hreports⟩ | ⟨_, _, -, -, -, hreports⟩
  · rw [hreports, Diagnostics.reportAll_eq]
    exact List.prefix_append _ _
  · rw [hreports]

theorem runStatements_reports (fuel : Nat) (s : Session) (ss : List Stmt) :
    s.diagnostics.reports <+: (s.runStatements fuel ss).session.diagnostics.reports := by
  obtain ⟨outcomes, -, hreports⟩ := runStatements_runs fuel ss s
  rw [hreports, Diagnostics.reportAll_eq]
  exact List.prefix_append _ _

/-- What a line does comes behind what its first statement does. -/
theorem runStatements_first (fuel : Nat) (s : Session) (statement : Stmt) (rest : List Stmt) :
    let first := (s.runStatement fuel statement).session
    let all := (s.runStatements fuel (statement :: rest)).session
    first.machine.sink.Extends all.machine.sink ∧
      first.diagnostics.reports <+: all.diagnostics.reports := by
  cases hhalt : (s.runStatement fuel statement).halt with
  | some halt =>
    rw [runStatements_halted hhalt]
    exact ⟨.refl _, List.prefix_refl _⟩
  | none =>
    rw [runStatements_next hhalt]
    exact ⟨runStatements_extends fuel _ rest, runStatements_reports fuel _ rest⟩

/-! ## 2. A step on both sinks -/

/-- **The report of the first line that does not fit** in a step: an error of the call that prints it, or
    of the prompt that shows the value of an expression at the top. -/
inductive Overflow (fuel : Nat) (s : Session) (entry : Entry) (L : Nat) : Report → Prop where
  | print {n v rest paren m}
      (hcall : Visited fuel s [entry] ⟨n + 1, .apply (.native .print) (v :: rest) paren, m⟩)
      (hline : m.sink.Overflows L v.line) :
      Overflow fuel s entry L (.runtime (.native ConsoleError.full.message paren.pos))
  | echo {e v m m'} (hcall : Begins fuel s entry (.evaluate e Store.globals) m)
      (hrun : (evaluate fuel e Store.globals).run m = (.ok v, m'))
      (hline : m'.sink.Overflows L v.line) :
      Overflow fuel s entry L (.io ConsoleError.full.message)

/-- The session with a limit to its sink. -/
def Session.limited (L : Nat) (s : Session) : Session := { s with machine := s.machine.limited L }

/-- **The first line that does not fit is reported**, behind reports that are made without a limit
    too. -/
def Reported (fuel : Nat) (s : Session) (entry : Entry) (L : Nat) (reports limited : List Report) :
    Prop :=
  ∃ front r more, limited = front ++ r :: more ∧ front <+: reports ∧ Overflow fuel s entry L r

/-- A session has reached its limit: it has taken the first bytes of what another has taken. -/
structure Session.Full (L : Nat) (s t : Session) : Prop where
  exceeds : L < s.machine.sink.written.size
  limit : t.machine.sink.limit = some L
  taken : t.machine.sink.written.toList = s.machine.sink.written.toList.take L

/-- **A step on both sinks.** As long as all fits it is the same; else the limited sink is full behind
    it, and the first line that does not fit is reported in it. -/
inductive CutStep (fuel : Nat) (s : Session) (entry : Entry) (L : Nat) (step step' : Step) : Prop where
  | within (hfits : step.session.machine.sink.written.size ≤ L)
      (heq : step' = ⟨step.session.limited L, step.halt⟩) : CutStep fuel s entry L step step'
  | cut (hfull : step.session.Full L step'.session)
      (hreported : Reported fuel s entry L step.session.diagnostics.reports
        step'.session.diagnostics.reports) : CutStep fuel s entry L step step'

section Steps

variable {s₀ : Session} {entry : Entry}

theorem Reported.extends {reports reports' limited limited' : List Report}
    (h : Reported fuel s₀ entry L reports limited) (hreports : reports <+: reports')
    (hlimited : limited <+: limited') : Reported fuel s₀ entry L reports' limited' := by
  obtain ⟨front, r, more, rfl, hfront, hr⟩ := h
  obtain ⟨later, rfl⟩ := hlimited
  refine ⟨front, r, more ++ later, ?_, hfront.trans hreports, hr⟩
  rw [List.append_assoc, List.cons_append]

/-- **A full sink stays full**, whatever is written. -/
theorem Session.Full.extends {s' t' : Session} (h : s.Full L t)
    (hs : s.machine.sink.Extends s'.machine.sink) (ht : t.machine.sink.Extends t'.machine.sink) :
    s'.Full L t' where
  exceeds := Nat.lt_of_lt_of_le h.exceeds hs.size_le
  limit := ht.limit.trans h.limit
  taken := by
    have hsize : t.machine.sink.written.size = L := by
      rw [← Array.length_toList, h.taken, List.length_take, Array.length_toList]
      exact Nat.min_eq_left (Nat.le_of_lt h.exceeds)
    rw [ht.full h.limit hsize, h.taken, hs.take_eq (Nat.le_of_lt h.exceeds)]

/-- Reading and scoping do not look at the sink. -/
theorem accept_limited (L : Nat) (s : Session) (source : String) :
    (s.limited L).accept source = ((s.accept source).1.limited L, (s.accept source).2) := by
  unfold Session.accept Session.limited
  dsimp only
  split
  · rfl
  · split <;> rfl

theorem settle_limited (L : Nat) (s : Session) (r : Except Stop α) (m : Machine) :
    (s.limited L).settle (r, m.limited L)
      = ⟨(s.settle (r, m)).session.limited L, (s.settle (r, m)).halt⟩ := by
  cases r with
  | ok a => rfl
  | error stop => cases stop <;> rfl

/-- **A print that is cut** ends its step, and is reported in it. -/
theorem CutStep.of_failed {m₀ : Machine} {v : Value} {rest : List Value} {paren : Token} {n : Nat}
    {step : Step}
    (hcall : Visited fuel s₀ [entry] ⟨n + 1, .apply (.native .print) (v :: rest) paren, m₀⟩)
    (hline : m₀.sink.Overflows L v.line) (hover : L < m.sink.written.size)
    (hlimit : m'.sink.limit = some L)
    (htaken : m'.sink.written.toList = m.sink.written.toList.take L)
    (hextends : m.sink.Extends step.session.machine.sink)
    (hreports : s.diagnostics.reports <+: step.session.diagnostics.reports) :
    CutStep fuel s₀ entry L step ((s.limited L).settle (α := α)
      (.error (.error (.native ConsoleError.full.message paren.pos)), m')) := by
  have hfull : Session.Full L { s with machine := m } { s with machine := m' } :=
    ⟨hover, hlimit, htaken⟩
  exact .cut (hfull.extends hextends (.refl _)) ⟨s.diagnostics.reports, _, [],
    congrArg Diagnostics.reports (Diagnostics.reportAll_eq _ _), hreports, .print hcall hline⟩

theorem settle_reports (s : Session) (r : Except Stop α × Machine) :
    s.diagnostics.reports <+: (s.settle r).session.diagnostics.reports := by
  obtain ⟨r, m⟩ := r
  cases r with
  | ok a => exact List.prefix_refl _
  | error stop =>
    cases stop with
    | error e => exact ⟨_, (congrArg Diagnostics.reports (Diagnostics.reportAll_eq _ _)).symm⟩
    | fault | starved => exact List.prefix_refl _

/-- A computation of a program makes a step on both sinks. -/
theorem settle_cut {x : Run α} (h : Cut (Visited fuel s₀ [entry]) L s.machine x) :
    CutStep fuel s₀ entry L (s.settle (x.run s.machine))
      ((s.limited L).settle (x.run (s.machine.limited L))) := by
  cases h with
  | within hfits hrun =>
    refine .within ?_ ?_
    · rw [settle_machine]
      exact hfits
    · rw [hrun]
      exact settle_limited L s _ _
  | cut hcall hline hover hrun hlimit htaken =>
    rw [hrun]
    refine .of_failed hcall hline hover hlimit htaken ?_ (settle_reports _ _)
    rw [settle_machine]
    exact .refl _

theorem runStatement_settled {r : Except Stop Yield} (s : Session)
    (hrun : (perform fuel statement).run s.machine = (r, m)) (hr : ∀ v, r ≠ .ok (.value v)) :
    s.runStatement fuel statement = s.settle (r, m) := by
  rw [Session.runStatement, hrun]
  cases r with
  | error stop => rfl
  | ok y =>
    cases y with
    | value v => exact absurd rfl (hr v)
    | signal signal => rfl

theorem runStatement_shown {v : Value} {sink : Sink} (s : Session)
    (hrun : (perform fuel statement).run s.machine = (.ok (.value v), m))
    (hwrite : m.sink.write v.line = (.ok (), sink)) :
    s.runStatement fuel statement = ⟨{ s with machine := { m with sink } }, none⟩ := by
  rw [Session.runStatement, hrun]
  simp only [echo_run, hwrite]
  rfl

theorem runStatement_unshown {v : Value} {sink : Sink} {e : ConsoleError} (s : Session)
    (hrun : (perform fuel statement).run s.machine = (.ok (.value v), m))
    (hwrite : m.sink.write v.line = (.error e, sink)) :
    s.runStatement fuel statement
      = ⟨Session.report { s with machine := { m with sink } } [.io e.message], none⟩ := by
  rw [Session.runStatement, hrun]
  simp only [echo_run, hwrite]

/-- The value of an expression is shown on both sinks, or the prompt reports that it does not fit. -/
theorem shown_cut {v : Value} (hrun : (perform fuel statement).run s.machine = (.ok (.value v), m))
    (hsame : (perform fuel statement).run (s.machine.limited L)
      = (.ok (.value v), m.limited L))
    (hbegins : Begins fuel s₀ entry (.ofTop statement) s.machine) (hopen : m.sink.Open)
    (hfits : m.sink.written.size ≤ L) :
    CutStep fuel s₀ entry L (s.runStatement fuel statement)
      ((s.limited L).runStatement fuel statement) := by
  have hsize : (m.sink.store v.line).written.size = m.sink.written.size + v.line.length :=
    Sink.size_store _ _
  have hstep := runStatement_shown s hrun (hopen.write _)
  by_cases hline : m.sink.written.size + v.line.length ≤ L
  · rw [hstep, runStatement_shown (s.limited L) hsame (hopen.write_fits hline)]
    exact .within (hsize ▸ hline) rfl
  · have hover : L < m.sink.written.size + v.line.length := Nat.lt_of_not_le hline
    obtain ⟨hwrite, htake⟩ := hopen.write_over hfits hover
    have hr : Overflow fuel s₀ entry L (.io ConsoleError.full.message) := by
      rcases perform_ok hrun with ⟨e, _, rfl, hv, heval⟩ | ⟨_, -, hv, -⟩
      · cases hv
        exact .echo hbegins heval ⟨hfits, hover⟩
      · cases hv
    rw [hstep, runStatement_unshown (s.limited L) hsame hwrite]
    refine .cut ⟨hsize ▸ hover, rfl, ?_⟩ ⟨s.diagnostics.reports, _, [], ?_, List.prefix_refl _, hr⟩
    · show (m.sink.store _).written.toList = (m.sink.store v.line).written.toList.take L
      rw [Sink.written_store, Sink.written_store]
      exact htake
    · exact congrArg Diagnostics.reports (Diagnostics.reportAll_eq _ _)

/-- **A statement of a line** makes a step on both sinks. -/
theorem runStatement_cut (hopen : s.machine.sink.Open) (hL : s.machine.sink.written.size ≤ L)
    (hbegins : Begins fuel s₀ entry (.ofTop statement) s.machine) :
    CutStep fuel s₀ entry L (s.runStatement fuel statement)
      ((s.limited L).runStatement fuel statement) := by
  have hconsists := perform_consists (worldOf_closed fuel s₀ [entry]) hbegins.visited
  have hextends := hconsists.extends
  cases hrun : (perform fuel statement).run s.machine with
  | mk r m =>
    rw [hrun] at hextends
    cases hconsists.cut hopen hL with
    | within hfits hsame =>
      rw [hrun] at hfits hsame
      by_cases hvalue : ∃ v, r = .ok (.value v)
      · obtain ⟨v, rfl⟩ := hvalue
        exact shown_cut hrun hsame hbegins (hextends.open hopen) hfits
      · have hsettled := fun v hv => hvalue ⟨v, hv⟩
        rw [runStatement_settled s hrun hsettled, runStatement_settled (s.limited L) hsame hsettled]
        refine .within ?_ (settle_limited L s _ _)
        rw [settle_machine]
        exact hfits
    | cut hcall hline hover hfails hlimit htaken =>
      rw [hrun] at hover htaken
      rw [runStatement_settled (s.limited L) hfails fun _ => nofun]
      exact .of_failed hcall hline hover hlimit htaken (shown_extends hrun)
        (runStatement_reports fuel s statement)

/-- **The statements of a line** make a step on both sinks. -/
theorem runStatements_cut {ss : List Stmt} (hopen : s.machine.sink.Open)
    (hL : s.machine.sink.written.size ≤ L)
    (hbegins : ∀ before statement rest, ss = before ++ statement :: rest →
      (s.runStatements fuel before).halt = none → Begins fuel s₀ entry (.ofTop statement)
        (s.runStatements fuel before).session.machine) :
    CutStep fuel s₀ entry L (s.runStatements fuel ss) ((s.limited L).runStatements fuel ss) := by
  induction ss generalizing s with
  | nil => exact .within hL rfl
  | cons statement rest ih =>
    have hextends := runStatement_extends fuel s statement
    cases runStatement_cut hopen hL (hbegins [] statement rest rfl rfl) with
    | within hfits heq =>
      cases hhalt : (s.runStatement fuel statement).halt with
      | some halt =>
        have hhalt' := congrArg Step.halt heq
        rw [runStatements_halted hhalt, runStatements_halted (hhalt'.trans hhalt)]
        exact .within hfits heq
      | none =>
        have hhalt' := congrArg Step.halt heq
        have hstep := runStatements_next hhalt
        rw [hstep, runStatements_next (hhalt'.trans hhalt), congrArg Step.session heq]
        refine ih (hextends.open hopen) hfits fun before other more heq' hnone => ?_
        have hbefore := hbegins (statement :: before) other more (by rw [heq']; rfl)
        rw [hstep] at hbefore
        exact hbefore hnone
    | cut hfull hreported =>
      have hbehind := runStatements_first fuel s statement rest
      have hbehind' := runStatements_first fuel (s.limited L) statement rest
      exact .cut (hfull.extends hbehind.1 hbehind'.1) (hreported.extends hbehind.2 hbehind'.2)

/-- **Every step of a session** is made on both sinks. -/
theorem feed_cut (h : entry.source?.isSome = true) (hopen : s.machine.sink.Open)
    (hL : s.machine.sink.written.size ≤ L) :
    CutStep fuel s entry L (s.feed fuel entry) ((s.limited L).feed fuel entry) := by
  cases entry with
  | outside => cases h
  | file source =>
    have hsink := accept_sink s source
    show CutStep _ _ _ L (s.runFile fuel source) ((s.limited L).runFile fuel source)
    rw [Session.runFile, Session.runFile, accept_limited]
    cases haccept : s.accept source with
    | mk s' program? =>
      rw [haccept] at hsink
      cases program? with
      | none => exact .within (hsink ▸ hL) rfl
      | some program =>
        have hconsists : Consists (Visited fuel s [.file source]) s'.machine (runAll fuel program) := by
          refine runAll_consists (worldOf_closed fuel s [.file source]) ?_
          rintro before statement rest m rfl hrun
          exact (Begins.file haccept hrun).visited
        exact settle_cut (hconsists.cut (hsink ▸ hopen) (hsink ▸ hL))
  | line source =>
    have hsink := accept_sink s source
    show CutStep _ _ _ L (s.runLine fuel source) ((s.limited L).runLine fuel source)
    rw [Session.runLine, Session.runLine, accept_limited]
    cases haccept : s.accept source with
    | mk s' program? =>
      rw [haccept] at hsink
      cases program? with
      | none => exact .within (hsink ▸ hL) rfl
      | some program =>
        refine runStatements_cut (hsink ▸ hopen) (hsink ▸ hL) ?_
        rintro before statement rest rfl hnone
        exact .line haccept hnone

end Steps

/-! ## 3. Sessions -/

/-- **Two sessions agree on entries**: each step reports the same in both, and goes on or halts alike. -/
def Agrees (fuel : Nat) (s t : Session) (entries : List Entry) : Prop :=
  ∀ before entry later, entries = before ++ entry :: later →
    let step := (s.after fuel before).feed fuel entry
    let step' := (t.after fuel before).feed fuel entry
    step'.session.diagnostics = step.session.diagnostics ∧ step'.halt = step.halt

/-- **A session on both sinks.** As long as all fits it is the same; else the limited sink is full behind
    it, and the first line that does not fit is reported in its step. -/
inductive CutSession (fuel L : Nat) (s t : Session) (entries : List Entry) : Prop where
  | within (hopen : (s.after fuel entries).machine.sink.Open)
      (hfits : (s.after fuel entries).machine.sink.written.size ≤ L)
      (heq : t.after fuel entries = (s.after fuel entries).limited L)
      (hagrees : Agrees fuel s t entries) : CutSession fuel L s t entries
  | cut {before entry later} (hsplit : entries = before ++ entry :: later)
      (hagrees : Agrees fuel s t before)
      (hreported : Reported fuel (s.after fuel before) entry L
        ((s.after fuel before).feed fuel entry).session.diagnostics.reports
        ((t.after fuel before).feed fuel entry).session.diagnostics.reports)
      (hfull : (s.after fuel entries).Full L (t.after fuel entries)) : CutSession fuel L s t entries

theorem after_concat (fuel : Nat) (s : Session) (entries : List Entry) (entry : Entry) :
    s.after fuel (entries ++ [entry]) = ((s.after fuel entries).feed fuel entry).session := by
  rw [Session.after, Session.after, List.foldl_append]
  rfl

theorem Agrees.concat {entries : List Entry} {entry : Entry} (h : Agrees fuel s t entries)
    (hlast : ((t.after fuel entries).feed fuel entry).session.diagnostics
        = ((s.after fuel entries).feed fuel entry).session.diagnostics ∧
      ((t.after fuel entries).feed fuel entry).halt = ((s.after fuel entries).feed fuel entry).halt) :
    Agrees fuel s t (entries ++ [entry]) := by
  intro before other later heq
  rcases List.eq_nil_or_concat later with rfl | ⟨front, last, rfl⟩
  · obtain ⟨rfl, hentry⟩ := List.append_inj' heq rfl
    cases hentry
    exact hlast
  · rw [List.concat_eq_append, ← List.cons_append, ← List.append_assoc] at heq
    obtain ⟨heq, -⟩ := List.append_inj' heq rfl
    exact h before other front heq

/-- **Every session** runs on both sinks. -/
theorem session_cut {entries : List Entry} (hopen : s.machine.sink.Open)
    (hL : s.machine.sink.written.size ≤ L)
    (hsources : ∀ entry ∈ entries, entry.source?.isSome = true) :
    CutSession fuel L s (s.limited L) entries := by
  induction entries using List.reverseRecOn with
  | nil => exact .within hopen hL rfl fun before _ _ heq => by simp at heq
  | append_singleton entries entry ih =>
    have hsource : entry.source?.isSome = true := hsources entry (by simp)
    have hextends := feed_extends fuel (s.after fuel entries) hsource
    cases ih fun other hmem => hsources other (List.mem_append_left _ hmem) with
    | within hopen' hfits heq hagrees =>
      cases feed_cut hsource hopen' hfits with
      | within hfits' hstep =>
        rw [← heq] at hstep
        refine .within ?_ ?_ ?_ (hagrees.concat ?_)
        · rw [after_concat]
          exact hextends.open hopen'
        · rw [after_concat]
          exact hfits'
        · rw [after_concat, after_concat, hstep]
        · rw [hstep]
          exact ⟨rfl, rfl⟩
      | cut hfull hreported =>
        rw [← heq] at hfull hreported
        refine .cut rfl hagrees hreported ?_
        rw [after_concat, after_concat]
        exact hfull
    | @cut before other later hsplit hagrees hreported hfull =>
      have hextends' := feed_extends fuel ((s.limited L).after fuel entries) hsource
      refine .cut (show _ = before ++ other :: (later ++ [entry]) from ?_) hagrees hreported ?_
      · rw [hsplit, List.append_assoc, List.cons_append]
      · rw [after_concat, after_concat]
        exact hfull.extends hextends hextends'

/-- **A full sink truncates, and loses no error.** Programs and lines are run on a sink that takes
    everything, and on one that takes `L` bytes in all.

    * The limited sink holds the first `L` bytes of what the other holds, or all of it if that is less.
    * If all fits, every step reports the same.
    * Else the steps before some step report the same, and that step reports the first line that does not
      fit: as an error of the print, or of the prompt that shows a value. What it reports before that is
      reported without a limit too. -/
theorem full_sink_truncates (fuel L : Nat) (input : Input) (now : Instant) (clock : Clock)
    (entries : List Entry)
    (hsources : ∀ entry ∈ entries, entry.source?.isSome = true) :
    let s := Session.start .unlimited input now clock
    let t := Session.start (Sink.unlimited.limited L) input now clock
    let written := (s.after fuel entries).machine.sink.written.toList
    (t.after fuel entries).machine.sink.written.toList = written.take L ∧
    (written.length ≤ L → Agrees fuel s t entries) ∧
    (L < written.length → ∃ before entry later, entries = before ++ entry :: later ∧
      Agrees fuel s t before ∧
      Reported fuel (s.after fuel before) entry L
        ((s.after fuel before).feed fuel entry).session.diagnostics.reports
        ((t.after fuel before).feed fuel entry).session.diagnostics.reports) := by
  intro s t written
  have hopen : s.machine.sink.Open := ⟨rfl, rfl, fun _ => rfl⟩
  have hlength : written.length = (s.after fuel entries).machine.sink.written.size :=
    Array.length_toList
  have hcut : CutSession fuel L s t entries := session_cut hopen (Nat.zero_le L) hsources
  cases hcut with
  | within _ hfits heq hagrees =>
    rw [← hlength] at hfits
    refine ⟨?_, fun _ => hagrees, fun hover => absurd hfits (Nat.not_le.mpr hover)⟩
    rw [List.take_of_length_le hfits]
    exact congrArg (fun s => s.machine.sink.written.toList) heq
  | @cut before entry later hsplit hagrees hreported hfull =>
    refine ⟨hfull.taken, fun hfits => absurd hfull.exceeds ?_, fun _ => ?_⟩
    · rw [← hlength]
      exact Nat.not_lt.mpr hfits
    · exact ⟨before, entry, later, hsplit, hagrees, hreported⟩

/-- A line whose value does not fit behind what it prints. -/
theorem full_sink_truncates_value :
    let entry := Entry.line "print(nil);"
    let s := Session.start .unlimited (.ofBytes []) 0
    let t := Session.start (Sink.unlimited.limited 5) (.ofBytes []) 0
    (∀ e ∈ [entry], e.source?.isSome = true) ∧
    (t.after 4 [entry]).machine.sink.written.toList = Text.Utf8.encode "nil\nn" ∧
    Reported 4 s entry 5 (s.feed 4 entry).session.diagnostics.reports
      (t.feed 4 entry).session.diagnostics.reports := by
  intro entry s t
  have hsources : ∀ e ∈ [entry], e.source?.isSome = true := List.forall_mem_singleton.mpr rfl
  have hwritten : (s.after 4 [entry]).machine.sink.written.toList = Text.Utf8.encode "nil\nnil\n" := by
    cbv
  obtain ⟨htaken, -, hcut⟩ := full_sink_truncates 4 5 (.ofBytes []) 0 .steady [entry] hsources
  rw [hwritten] at htaken hcut
  refine ⟨hsources, htaken.trans (by decide), ?_⟩
  obtain ⟨before, other, later, heq, -, hreported⟩ := hcut (by decide)
  obtain ⟨rfl, hrest⟩ := List.append_eq_singleton_iff.mp heq.symm |>.resolve_right (by simp)
  cases hrest
  exact hreported

end Lox
