import Lox.Proofs.Machine.Lines
import Lox.Proofs.Session.Safety

/-!
# What a session reads

* `Session.begun`: the calls that a step starts with, in order (`mem_begun`). `Session.readCalls`: **the
  calls of `read` in a session**, in order. They are all that there are (`mem_readCalls`).
* `readCalls_between`: the steps of a session touch the input in these calls alone.
* `read_gives_lines`: **the calls of `read` give the lines of the input one after another**, without their
  ends, and then nil. A call whose flush fails reads nothing.

The carriage returns in front of the end of a line go with it (`read_loses_a_return`).
-/

namespace Lox

variable {fuel : Nat} {s : Session} {entry : Entry} {entries : List Entry} {m : Machine} {v : Visit}

/-! ## 1. The calls that a step starts with -/

/-- The calls that a program starts with, one a statement, up to its first error. -/
def begunByFile (fuel : Nat) (m : Machine) : List Stmt → List Visit
  | [] => []
  | statement :: rest =>
    ⟨fuel, .execute statement Store.globals, m⟩ ::
      thenMade ((execute fuel statement Store.globals).run m) fun _ m' => begunByFile fuel m' rest

/-- The calls that a line starts with, one a statement, whether or not they fail. -/
def begunByLine (fuel : Nat) (s : Session) : List Stmt → List Visit
  | [] => []
  | statement :: rest =>
    let step := s.runStatement fuel statement
    ⟨fuel, .ofTop statement, s.machine⟩ ::
      if step.halt = none then begunByLine fuel step.session rest else []

/-- **The calls that a step starts with**, in order. -/
def Session.begun (fuel : Nat) (s : Session) : Entry → List Visit
  | .file source => (s.accept source).2.elim [] (begunByFile fuel (s.accept source).1.machine)
  | .line source => (s.accept source).2.elim [] (begunByLine fuel (s.accept source).1)
  | .outside _ _ _ _ => []

theorem mem_begunByFile {ss : List Stmt} : v ∈ begunByFile fuel m ss ↔
    ∃ before statement rest m', ss = before ++ statement :: rest ∧
      (runAll fuel before).run m = (.ok (), m') ∧ v = ⟨fuel, .execute statement Store.globals, m'⟩ := by
  induction ss generalizing m with
  | nil =>
    refine ⟨(nomatch ·), ?_⟩
    rintro ⟨before, _, _, _, h, -⟩
    exact absurd h.symm (List.append_ne_nil_of_right_ne_nil before (List.cons_ne_nil _ _))
  | cons first ss ih =>
    rw [begunByFile, mem_first]
    constructor
    · rintro (rfl | ⟨r, m₁, hfirst, h⟩)
      · exact ⟨[], first, ss, m, rfl, rfl, rfl⟩
      · obtain ⟨before, statement, rest, m', rfl, hrun, rfl⟩ := ih.mp h
        exact ⟨first :: before, statement, rest, m', rfl, (run_bind_ok hfirst).trans hrun, rfl⟩
    · rintro ⟨before, statement, rest, m', heq, hrun, rfl⟩
      cases before with
      | nil =>
        cases heq
        cases hrun
        exact .inl rfl
      | cons _ before =>
        cases heq
        obtain ⟨r, m₁, hfirst, hrest⟩ := ok_of_run_bind hrun
        exact .inr ⟨r, m₁, hfirst, ih.mpr ⟨before, statement, rest, m', rfl, hrest, rfl⟩⟩

theorem mem_begunByLine {ss : List Stmt} : v ∈ begunByLine fuel s ss ↔
    ∃ before statement rest, ss = before ++ statement :: rest ∧
      (s.runStatements fuel before).halt = none ∧
      v = ⟨fuel, .ofTop statement, (s.runStatements fuel before).session.machine⟩ := by
  induction ss generalizing s with
  | nil =>
    refine ⟨(nomatch ·), ?_⟩
    rintro ⟨before, _, _, h, -⟩
    exact absurd h.symm (List.append_ne_nil_of_right_ne_nil before (List.cons_ne_nil _ _))
  | cons first ss ih =>
    rw [begunByLine, List.mem_cons]
    constructor
    · rintro (rfl | h)
      · exact ⟨[], first, ss, rfl, rfl, rfl⟩
      · split at h
        · next hhalt =>
          obtain ⟨before, statement, rest, rfl, hnone, rfl⟩ := ih.mp h
          have hnext := runStatements_next hhalt before
          exact ⟨first :: before, statement, rest, rfl, by rw [hnext]; exact hnone, by rw [hnext]⟩
        · exact nomatch h
    · rintro ⟨before, statement, rest, heq, hnone, hv⟩
      cases before with
      | nil =>
        cases heq
        exact .inl hv
      | cons _ before =>
        cases heq
        have hhalt : (s.runStatement fuel first).halt = none := by
          cases hhalt : (s.runStatement fuel first).halt with
          | none => rfl
          | some halt =>
            rw [runStatements_halted hhalt, hhalt] at hnone
            cases hnone
        rw [runStatements_next hhalt before] at hnone hv
        rw [if_pos hhalt]
        exact .inr (ih.mpr ⟨before, statement, rest, rfl, hnone, hv⟩)

/-- **The list holds the calls that a step starts with**, and no others. -/
theorem mem_begun : v ∈ s.begun fuel entry ↔
    ∃ c m, Begins fuel s entry c m ∧ v = ⟨fuel, c, m⟩ := by
  constructor
  · intro h
    cases entry with
    | outside => exact nomatch h
    | file source =>
      cases haccept : s.accept source with
      | mk s' program =>
        simp only [Session.begun, haccept] at h
        cases program with
        | none => exact nomatch h
        | some program =>
          obtain ⟨before, statement, rest, m', rfl, hrun, rfl⟩ := mem_begunByFile.mp h
          exact ⟨_, _, .file haccept hrun, rfl⟩
    | line source =>
      cases haccept : s.accept source with
      | mk s' program =>
        simp only [Session.begun, haccept] at h
        cases program with
        | none => exact nomatch h
        | some program =>
          obtain ⟨before, statement, rest, rfl, hnone, rfl⟩ := mem_begunByLine.mp h
          exact ⟨_, _, .line haccept hnone, rfl⟩
  · rintro ⟨c, m, hb, rfl⟩
    cases hb with
    | file haccept hrun =>
      simp only [Session.begun, haccept]
      exact mem_begunByFile.mpr ⟨_, _, _, _, rfl, hrun, rfl⟩
    | line haccept hnone =>
      simp only [Session.begun, haccept]
      exact mem_begunByLine.mpr ⟨_, _, _, rfl, hnone, rfl⟩

/-! ## 2. Between the calls -/

theorem runAll_touches (ss : List Stmt) (m : Machine) :
    Touches m (runAll fuel ss) (begunByFile fuel m ss) := by
  induction ss generalizing m with
  | nil => exact .still rfl
  | cons statement rest ih =>
    exact Touches.first (x := execute fuel statement Store.globals) rfl fun _ m₁ _ => ih m₁

/-- Showing a value does not touch the input. -/
theorem runStatement_input (fuel : Nat) (s : Session) (statement : Stmt) :
    (s.runStatement fuel statement).session.machine.input
      = (machineAfter fuel s.machine (.ofTop statement)).input := by
  rw [← perform_snd, Session.runStatement]
  cases hrun : (perform fuel statement).run s.machine with
  | mk r m₁ =>
    cases r with
    | error stop => exact congrArg Machine.input (settle_machine s (.error stop, m₁))
    | ok y =>
      cases y with
      | signal => rfl
      | value v =>
        have hecho : (echo v).run m₁
            = (.ok (m₁.sink.write v.line).1, { m₁ with sink := (m₁.sink.write v.line).2 }) := rfl
        dsimp only
        rw [hecho]
        cases (m₁.sink.write v.line).1 <;> rfl

theorem runStatements_between (ss : List Stmt) (s : Session) :
    Between s.machine (begunByLine fuel s ss) (s.runStatements fuel ss).session.machine := by
  induction ss generalizing s with
  | nil => exact .still rfl
  | cons statement rest ih =>
    have hinput := runStatement_input fuel s statement
    refine .call rfl ?_
    cases hhalt : (s.runStatement fuel statement).halt with
    | some halt =>
      rw [runStatements_halted hhalt]
      exact .still hinput
    | none =>
      rw [runStatements_next hhalt, if_pos rfl]
      exact (ih _).from_input hinput

/-- Reading and resolving a source does not touch the input. -/
theorem accept_input (s : Session) (source : String) :
    (s.accept source).1.machine.input = s.machine.input := by
  obtain ⟨d, hd, -⟩ := accept_machine s source
  rw [hd]

/-- **A step touches the input in the calls that it starts with.** -/
theorem begun_between (h : entry.source?.isSome = true) :
    Between s.machine (s.begun fuel entry) (s.feed fuel entry).session.machine := by
  cases entry with
  | outside => cases h
  | file source =>
    have hinput := accept_input s source
    show Between _ _ (s.runFile fuel source).session.machine
    unfold Session.runFile
    cases haccept : s.accept source with
    | mk s' program =>
      rw [haccept] at hinput
      simp only [Session.begun, haccept]
      cases program with
      | none => exact .still hinput
      | some program =>
        rw [settle_machine]
        exact (runAll_touches program s'.machine).from_input hinput
  | line source =>
    have hinput := accept_input s source
    show Between _ _ (s.runLine fuel source).session.machine
    unfold Session.runLine
    cases haccept : s.accept source with
    | mk s' program =>
      rw [haccept] at hinput
      simp only [Session.begun, haccept]
      cases program with
      | none => exact .still hinput
      | some program => exact (runStatements_between program s').from_input hinput

/-! ## 3. Calls of `read` -/

/-- **The calls of `read` in a session**, in order. -/
def Session.readCalls (fuel : Nat) : Session → List Entry → List Visit
  | _, [] => []
  | s, e :: rest =>
    ((s.begun fuel e).flatMap fun v => Lox.readCalls v.fuel v.call v.machine) ++
      Session.readCalls fuel (s.feed fuel e).session rest

/-- The visits of a session belong to the calls that its steps start with. -/
theorem visited_iff : Visited fuel s entries v ↔ ∃ before entry later u,
    entries = before ++ entry :: later ∧ u ∈ (s.after fuel before).begun fuel entry ∧ Leads u v := by
  constructor
  · intro h
    induction h with
    | begins heq hb => exact ⟨_, _, _, _, heq, mem_begun.mpr ⟨_, _, hb, rfl⟩, .refl⟩
    | makes _ hm ih =>
      obtain ⟨before, entry, later, u, heq, hu, hl⟩ := ih
      exact ⟨before, entry, later, u, heq, hu, hl.makes hm⟩
  · rintro ⟨before, entry, later, u, heq, hu, hl⟩
    obtain ⟨c, m, hb, rfl⟩ := mem_begun.mp hu
    induction hl with
    | refl => exact .begins heq hb
    | makes _ hm ih => exact .makes ih hm

/-- **The list holds the calls of `read` that are made in a session**, and no others. -/
theorem mem_readCalls_session : v ∈ s.readCalls fuel entries ↔
    Visited fuel s entries v ∧ v.Reads := by
  induction entries generalizing s with
  | nil =>
    refine ⟨(nomatch ·), ?_⟩
    rintro ⟨hv, -⟩
    obtain ⟨before, entry, later, u, heq, -⟩ := visited_iff.mp hv
    exact absurd heq.symm (List.append_ne_nil_of_right_ne_nil before (List.cons_ne_nil _ _))
  | cons e rest ih =>
    rw [Session.readCalls, List.mem_append, List.mem_flatMap, ih, visited_iff, visited_iff]
    constructor
    · rintro (⟨u, hu, hv⟩ | ⟨⟨before, entry, later, u, rfl, hu, hl⟩, hreads⟩)
      · obtain ⟨hl, hreads⟩ := mem_readCalls.mp hv
        exact ⟨⟨[], e, rest, u, rfl, hu, hl⟩, hreads⟩
      · exact ⟨⟨e :: before, entry, later, u, rfl, hu, hl⟩, hreads⟩
    · rintro ⟨⟨before, entry, later, u, heq, hu, hl⟩, hreads⟩
      cases before with
      | nil =>
        cases heq
        exact .inl ⟨u, hu, mem_readCalls.mpr ⟨hl, hreads⟩⟩
      | cons _ before =>
        cases heq
        exact .inr ⟨⟨before, entry, later, u, rfl, hu, hl⟩, hreads⟩

/-- **A session touches the input in the calls of `read` alone**, if nothing happens outside. -/
theorem readCalls_between_session (h : ∀ e ∈ entries, e.source?.isSome = true) :
    Between s.machine (s.readCalls fuel entries) (s.after fuel entries).machine := by
  induction entries generalizing s with
  | nil => exact .still rfl
  | cons e rest ih =>
    have hbegun : Between s.machine (s.begun fuel e) (s.feed fuel e).session.machine :=
      begun_between (h e List.mem_cons_self)
    have hfirst := hbegun.flatMap fun v _ => readCalls_between v.fuel v.call v.machine
    exact hfirst.trans (ih fun e' he => h e' (List.mem_cons_of_mem _ he))

/-! ## 4. Lines -/

/-- **The calls of `read` in a session give the lines of the input one after another**, and nil behind the
    last, whatever else the session does: these calls are all that are made, in order, and nothing but
    they touches the input. A line comes without its end and without the carriage returns that are left
    behind it then, so unaltered if there are none. A call whose output is not flushed fails, and leaves
    the input as it is. -/
theorem read_gives_lines (fuel : Nat) (s : Session) (entries : List Entry) (text : String)
    (hsources : ∀ e ∈ entries, e.source?.isSome = true) (hopen : s.machine.input.Open)
    (htext : s.machine.input.forProgram = Text.Utf8.encode text) :
    let calls := s.readCalls fuel entries
    (∀ v, v ∈ calls ↔ Visited fuel s entries v ∧ v.Reads) ∧
    Between s.machine calls (s.after fuel entries).machine ∧
    (∀ k n args paren m, calls[k]? = some ⟨n + 1, .apply (.native .read) args paren, m⟩ →
      let came := (apply (n + 1) (.native .read) args paren).run m
      (m.sink.flush.1 = .ok () →
        came.1 = .ok (.ofLine (lines text.toList)[linesRead (calls.take k)]?)) ∧
      ∀ e, m.sink.flush.1 = .error e →
        came.1 = .error (.error (.native e.message paren.pos)) ∧ came.2.input = m.input) ∧
    ((∀ v ∈ calls, v.machine.sink.flush.1 = .ok ()) → ∀ k ≤ calls.length,
      linesRead (calls.take k) = k) ∧
    ∀ line, (withoutEnd line).getLast? ≠ some '\r' →
      Value.ofLine (some line) = .text (String.ofList (withoutEnd line)) := by
  intro calls
  have hbetween : Between s.machine calls (s.after fuel entries).machine :=
    readCalls_between_session hsources
  refine ⟨fun v => mem_readCalls_session, hbetween, ?_, fun hflush k hk => linesRead_take hflush hk,
    fun line => Value.ofLine_unaltered⟩
  intro k n args paren m hk
  have hreads : ∀ u ∈ calls, u.Reads := fun u hu => (mem_readCalls_session.mp hu).2
  have hcs : s.machine.input.forProgram = bytesOf text.toList := by
    rw [bytesOf, String.ofList_toList]
    exact htext
  obtain ⟨hopen', rest, hlines, hleft⟩ := hbetween.left hreads hopen hcs hk
  have hgives : Answers m (apply (n + 1) (.native .read) args paren) paren (lines rest).head? :=
    read_gives hopen' hleft
  rw [hlines, List.head?_drop] at hgives
  exact ⟨hgives.flushed, hgives.refused⟩

/-- A session that has nothing but a text to read. -/
def Session.reading (text : String) : Session :=
  .start .unlimited (.ofBytes (Text.Utf8.encode text)) 0

/-- A line with an end of two characters, and a last line without an end. -/
theorem read_gives_lines_two :
    let s := Session.reading "a\r\nb"
    let entries : List Entry := [.file "read(); read();"]
    let calls := s.readCalls 5 entries
    let m := s.machine
    let paren (column : Nat) : Token := ⟨.rightParen, ")", ⟨1, column⟩⟩
    (∀ e ∈ entries, e.source?.isSome = true) ∧ m.input.Open ∧
      m.input.forProgram = Text.Utf8.encode "a\r\nb" ∧
      calls[0]? = some ⟨3, .apply (.native .read) [] (paren 6), m⟩ ∧
      calls[1]? = some ⟨3, .apply (.native .read) [] (paren 14), m.nextLine.2⟩ ∧
      ((apply 3 (.native .read) [] (paren 6)).run m).1 = .ok (.text "a") ∧
      ((apply 3 (.native .read) [] (paren 14)).run m.nextLine.2).1 = .ok (.text "b") := by
  intro s entries calls m paren
  have hsources : ∀ e ∈ entries, e.source?.isSome = true := by decide
  have hopen : m.input.Open := fun _ => rfl
  have hcalls : calls = [⟨3, .apply (.native .read) [] (paren 6), m⟩,
      ⟨3, .apply (.native .read) [] (paren 14), m.nextLine.2⟩] := by
    unfold calls m paren s entries
    cbv
  have hlines : lines "a\r\nb".toList = ["a\r\n".toList, "b".toList] := by decide
  obtain ⟨-, -, hgives, -⟩ := read_gives_lines 5 s entries "a\r\nb" hsources hopen rfl
  rw [show s.readCalls 5 entries = _ from hcalls, hlines] at hgives
  rw [hcalls]
  exact ⟨hsources, hopen, rfl, rfl, rfl, (hgives 0 2 [] (paren 6) m rfl).1 rfl,
    (hgives 1 2 [] (paren 14) m.nextLine.2 rfl).1 rfl⟩

/-- **A carriage return that is not of the end of its line** is lost with the end. -/
theorem read_loses_a_return :
    let s := Session.reading "a\r\r\n"
    let paren : Token := ⟨.rightParen, ")", ⟨1, 6⟩⟩
    s.machine.input.forProgram = Text.Utf8.encode "a\r\r\n" ∧
      s.readCalls 5 [.file "read();"] = [⟨3, .apply (.native .read) [] paren, s.machine⟩] ∧
      s.machine.sink.flush.1 = .ok () ∧ lines "a\r\r\n".toList = ["a\r\r\n".toList] ∧
      withoutEnd "a\r\r\n".toList = "a\r".toList ∧
      ((apply 3 (.native .read) [] paren).run s.machine).1 = .ok (.text "a") := by
  refine ⟨rfl, ?_, rfl, by decide, by decide, rfl⟩
  cbv

end Lox
