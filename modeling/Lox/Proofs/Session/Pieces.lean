import Lox.Proofs.Grammar.Joining
import Lox.Proofs.Likeness.Watch
import Lox.Proofs.Session.Phases
import Lox.Proofs.Session.Refusal
import Lox.Proofs.Token.Joining

/-!
# A program in pieces runs like the whole

Two sources that pass, one behind the other on a line of its own, are a source that passes. Running it
does what running the two does, one after the other.

* `reading_joined`: **what is read of the whole** is what is read of the two. The second one stands as
  many lines further down as the first one has, with the numbers of its references behind those of the
  first.
* `Manner`: a program is run up to its first error, and a line statement by statement.
* `run_append`: a run of some statements is a run of the first of them, and of the others if it goes on.
* `front_like`, `second_like`: so the whole and its pieces go through sessions that are alike.
* `moved_cases`: an error that moves with the second piece moves by as many lines as the piece.
* `pieces_run_like_whole`: **what is seen of the pieces** is what is seen of the whole.
-/

namespace Lox

/-! ## 1. What is read -/

/-- Places that are `k` and `l` lines further down than one place, or one place. -/
def Shift.between (k l : Nat) : Shift where
  rel p p' := p' = p ∨ ∃ q : Position, p = q.down k ∧ p' = q.down l
  refl _ := .inl rfl

theorem sourceLike_pushedDown (k l : Nat) (source : String) :
    SourceLike (.between k l) (Token.pushedDown k source) (Token.pushedDown l source) := by
  constructor
  · rw [Token.encode_pushedDown, Token.encode_pushedDown, Token.scan_down, Token.scan_down,
      Token.tokensOf_down, Token.tokensOf_down, List.forall₂_map_left_iff, List.forall₂_map_right_iff]
    exact List.forall₂_same.mpr fun t _ => ⟨rfl, rfl, .inr ⟨t.pos, rfl, rfl⟩⟩
  · rw [Token.encode_pushedDown, Token.encode_pushedDown, Token.scan_down, Token.scan_down,
      Token.errorsOf_down, Token.errorsOf_down, List.forall₂_map_left_iff, List.forall₂_map_right_iff]
    exact List.forall₂_same.mpr fun e _ => ⟨rfl, .inr ⟨e.pos, rfl, rfl⟩⟩

theorem pushedDown_zero (source : String) : Token.pushedDown 0 source = source :=
  String.toList_inj.mp rfl

theorem passes_pushedDown {source : String} (k : Nat) (h : Passes source) :
    Passes (Token.pushedDown k source) := by
  rw [← pushedDown_zero source] at h
  exact (sourceLike_pushedDown 0 k source).passes_iff.mp h

/-- How many lines a source takes in front of another. -/
def linesOf (source : String) : Nat := 1 + source.toList.count '\n'

/-- What is read of a source, with `k` the first free reference. -/
abbrev readingOf (source : String) (k : Nat) : Reading :=
  Reading.ofBytes (Text.Utf8.encode source) k

theorem lines_eq (source : String) :
    (Text.Utf8.encode source).count Token.newline + 1 = linesOf source := by
  rw [Token.count_newline_encode, linesOf, Nat.add_comm]

/-- A source that passes has no fault. -/
theorem Passes.scanned {source : String} (h : Passes source) :
    Token.errorsOf (Token.scan (Text.Utf8.encode source)) = [] :=
  List.map_eq_nil_iff.mp (List.append_eq_nil_iff.mp h.1).1

/-- The tokens of a source that passes are a program, whichever number its first reference gets. -/
theorem Passes.parsed {source : String} (h : Passes source) (k : Nat) :
    (Syntax.parse (Token.tokensOf (Token.scan (Text.Utf8.encode source))) k).errors = [] :=
  List.map_eq_nil_iff.mp (List.append_eq_nil_iff.mp
    ((passes_iff_reading (.refl .none source) k).mp h).1).2

/-- **What is read of the whole.** -/
theorem reading_joined {a b : String} (ha : Passes a) (hb : Passes b) (k : Nat) :
    let ra := readingOf a k
    let rb := readingOf (Token.pushedDown (linesOf a) b) ra.nextId
    readingOf (a ++ "\n" ++ b) k = ⟨ra.statements ++ rb.statements, [], rb.nextId⟩ := by
  intro ra rb
  have hdown := passes_pushedDown (linesOf a) hb
  have hscan := Token.scan_joined (Text.Utf8.encode b) fun e he => by
    rw [ha.scanned] at he
    cases he
  rw [lines_eq, ← Token.encode_pushedDown, ← Token.encode_joined] at hscan
  have hfaults : Token.errorsOf (Token.scan (Text.Utf8.encode (a ++ "\n" ++ b))) = [] := by
    have hfront := ha.scanned
    rw [Token.errorsOf_scan] at hfront
    rw [hscan]
    unfold Token.errorsOf at hfront ⊢
    rw [List.filterMap_append, hfront]
    exact hdown.scanned
  have htokens : Token.tokensOf (Token.scan (Text.Utf8.encode (a ++ "\n" ++ b)))
      = Token.tokensOf (Token.itemsOf Token.start (Token.pieces (Text.Utf8.encode a)))
        ++ Token.tokensOf (Token.scan (Text.Utf8.encode (Token.pushedDown (linesOf a) b))) := by
    rw [hscan]
    exact List.filterMap_append
  have hparse := Syntax.parse_joined (Token.tokensOf_itemsOf_ne_eof Token.start _)
    (Token.tokensOf_itemsOf_ne_eof Token.start _) rfl rfl (Token.tokensOf_scan _)
    (Token.tokensOf_scan _) (ha.parsed k) (hdown.parsed ra.nextId)
  unfold readingOf Reading.ofBytes Reading.ofTokens
  dsimp only
  rw [hfaults, htokens, hparse]
  rfl

theorem bodyFindings_append (ctx : Context) (scopes : Scopes) (ss more : List Stmt) :
    (bodyFindings ctx scopes (ss ++ more)).2 = (bodyFindings ctx scopes ss).2
      ++ (bodyFindings ctx (bodyFindings ctx scopes ss).1 more).2 := by
  induction ss generalizing scopes with
  | nil => rfl
  | cons s rest ih =>
    rw [List.cons_append, bodyFindings_cons, bodyFindings_cons, ih, List.append_assoc]

/-- **Scoping** looks at the second one as it does on its own: at the top nothing is brought in. -/
theorem resolve_joined {a : String} (ha : Passes a) (k : Nat) (more : List Stmt) :
    resolve ((readingOf a k).statements ++ more)
      = resolve (readingOf a k).statements ++ resolve more := by
  have hshaped : stmtsShaped Token.Spelled (readingOf a k).statements :=
    parse_shaped (ha.parsed k) fun t ht => Token.spelled_of_mem_scan ht
  rw [resolve_eq, resolve_eq, resolve_eq, bodyFindings_append, bodyFindings_top hshaped]

/-- A source that passes breaks no rule of scoping, whichever number its first reference gets. -/
theorem Passes.resolved {source : String} (h : Passes source) (k : Nat) :
    complaintsOf (resolve (readingOf source k).statements) = [] :=
  ((passes_iff_reading (.refl .none source) k).mp h).2

/-- **The whole passes** if its pieces do. -/
theorem passes_joined {a b : String} (ha : Passes a) (hb : Passes b) :
    Passes (a ++ "\n" ++ b) := by
  show (readingOf _ 0).reports = [] ∧ complaintsOf (resolve (readingOf _ 0).statements) = []
  rw [reading_joined ha hb 0, resolve_joined ha]
  unfold complaintsOf
  rw [List.filterMap_append]
  exact ⟨rfl, List.append_eq_nil_iff.mpr
    ⟨ha.resolved 0, (passes_pushedDown (linesOf a) hb).resolved _⟩⟩

theorem accept_passes {source : String} (h : Passes source) (s : Session) :
    s.accept source
      = (⟨s.loaded source, (readingOf source s.nextId).nextId, .empty⟩,
        some (s.programOf source)) := by
  have hsome := (accept_isSome_iff s source).mpr h
  have hnext := accept_nextId s source
  rcases accept_phases s source with ⟨s', haccept, -, -⟩ | ⟨k, haccept⟩
  · rw [haccept] at hsome
    cases hsome
  · rw [haccept] at hnext ⊢
    rw [show k = _ from hnext]

/-! ## 2. What is run -/

/-- How a source is run. -/
inductive Manner where
  /-- As a program, up to its first error. -/
  | file
  /-- As a line of a prompt, each statement on its own. -/
  | line
deriving DecidableEq

namespace Manner

/-- The entry for a source. -/
def entry : Manner → String → Entry
  | file, source => .file source
  | line, source => .line source

/-- The run of some statements. -/
def run (fuel : Nat) : Manner → Session → List Stmt → Step
  | file, s, ss => s.settle ((runAll fuel ss).run s.machine)
  | line, s, ss => s.runStatements fuel ss

/-- **Whether what comes behind is run**: it is not behind an error of a program, and never if the
    session cannot go on. -/
def GoesOn (m : Manner) (t : Step) : Prop :=
  t.halt = none ∧ (m = .file → t.session.diagnostics.hasRuntime = false)

instance (m : Manner) (t : Step) : Decidable (m.GoesOn t) := inferInstanceAs (Decidable (_ ∧ _))

end Manner

theorem feed_passes {source : String} (h : Passes source) (fuel : Nat) (m : Manner) (s : Session) :
    s.feed fuel (m.entry source) = m.run fuel (s.accept source).1 (s.programOf source) := by
  have haccept := accept_passes h s
  cases m with
  | file =>
    show s.runFile fuel source = _
    unfold Session.runFile
    rw [haccept]
    rfl
  | line =>
    show s.runLine fuel source = _
    unfold Session.runLine
    rw [haccept]
    rfl

theorem runAll_append (fuel : Nat) (front rest : List Stmt) (m : Machine) :
    (runAll fuel (front ++ rest)).run m =
      match (runAll fuel front).run m with
      | (.ok _, m') => (runAll fuel rest).run m'
      | (.error stop, m') => (.error stop, m') := by
  induction front generalizing m with
  | nil => rfl
  | cons statement front ih =>
    rw [List.cons_append, runAll, runAll]
    cases hrun : (execute fuel statement Store.globals).run m with
    | mk r m₁ =>
      cases r with
      | error stop => rw [run_bind_error hrun, run_bind_error hrun]
      | ok _ => rw [run_bind_ok hrun, run_bind_ok hrun, ih]

/-- **A run of some statements** is a run of the first of them, and of the others if it goes on. -/
theorem run_append (fuel : Nat) (m : Manner) (s : Session) (front rest : List Stmt)
    (hs : s.diagnostics.hasRuntime = false) :
    m.run fuel s (front ++ rest) =
      let t := m.run fuel s front
      if m.GoesOn t then m.run fuel t.session rest else t := by
  cases m with
  | file =>
    show s.settle ((runAll fuel (front ++ rest)).run s.machine) = _
    rw [runAll_append]
    unfold Manner.run
    dsimp only
    cases hrun : (runAll fuel front).run s.machine with
    | mk r m₁ =>
      cases r with
      | ok _ =>
        rw [if_pos ⟨rfl, fun _ => hs⟩]
        rfl
      | error stop =>
        refine (if_neg fun hgoes => ?_).symm
        cases stop with
        | error e =>
          have hruntime := hgoes.2 rfl
          simp [Session.settle, Session.report, Diagnostics.reportAll, Diagnostics.report,
            Report.isStatic] at hruntime
        | fault f => cases hgoes.1
        | starved => cases hgoes.1
  | line =>
    show s.runStatements fuel (front ++ rest) = _
    unfold Manner.run
    dsimp only
    clear hs
    induction front generalizing s with
    | nil => rw [List.nil_append, Session.runStatements, if_pos ⟨rfl, fun h => by cases h⟩]
    | cons statement front ih =>
      rw [List.cons_append, Session.runStatements, Session.runStatements]
      cases hhalt : (s.runStatement fuel statement).halt with
      | some halt =>
        dsimp only
        rw [if_neg fun hgoes => ?_]
        cases hhalt.symm.trans hgoes.1
      | none => exact ih _

/-- Reports with others in front of them. -/
def Diagnostics.behind (d first : Diagnostics) : Diagnostics where
  reports := first.reports ++ d.reports
  hasStatic := first.hasStatic || d.hasStatic
  hasRuntime := first.hasRuntime || d.hasRuntime

theorem Diagnostics.empty_behind (d : Diagnostics) : empty.behind d = d := by
  unfold behind empty
  simp only [List.append_nil, Bool.or_false]

theorem Diagnostics.reportAll_behind (d first : Diagnostics) (rs : List Report) :
    (d.behind first).reportAll rs = (d.reportAll rs).behind first := by
  rw [reportAll_eq, reportAll_eq]
  unfold behind
  simp only [List.append_assoc, Bool.or_assoc]

/-- A session that has reported something before. -/
def Session.behind (s : Session) (first : Diagnostics) : Session :=
  { s with diagnostics := s.diagnostics.behind first }

/-- A step of a session that has reported something before. -/
def Step.behind (t : Step) (first : Diagnostics) : Step :=
  { t with session := t.session.behind first }

theorem Session.report_behind (s : Session) (first : Diagnostics) (rs : List Report) :
    (s.behind first).report rs = (s.report rs).behind first :=
  congrArg (Session.mk s.machine s.nextId) (s.diagnostics.reportAll_behind first rs)

theorem settle_behind {α : Type} (s : Session) (first : Diagnostics) (r : Except Stop α × Machine) :
    (s.behind first).settle r = (s.settle r).behind first := by
  obtain ⟨r, m⟩ := r
  match r with
  | .ok _ => rfl
  | .error (.error e) =>
    exact congrArg (Step.mk · none)
      (Session.report_behind { s with machine := m } first [.runtime e])
  | .error (.fault _) => rfl
  | .error .starved => rfl

theorem runStatement_behind (fuel : Nat) (s : Session) (first : Diagnostics) (statement : Stmt) :
    (s.behind first).runStatement fuel statement = (s.runStatement fuel statement).behind first := by
  unfold Session.runStatement
  rw [show (s.behind first).machine = s.machine from rfl]
  split
  · split
    · next e m _ =>
      exact congrArg (Step.mk · none)
        (Session.report_behind { s with machine := m } first [.io e.message])
    · exact settle_behind s first _
  · exact settle_behind s first _

/-- **What was reported before** does not matter for a run. -/
theorem run_behind (fuel : Nat) (m : Manner) (s : Session) (first : Diagnostics) (ss : List Stmt) :
    m.run fuel (s.behind first) ss = (m.run fuel s ss).behind first := by
  cases m with
  | file => exact settle_behind s first _
  | line =>
    show (s.behind first).runStatements fuel ss = (s.runStatements fuel ss).behind first
    induction ss generalizing s with
    | nil => rfl
    | cons statement rest ih =>
      rw [Session.runStatements, Session.runStatements, runStatement_behind]
      cases hhalt : (s.runStatement fuel statement).halt with
      | some halt =>
        rw [show ((s.runStatement fuel statement).behind first).halt = some halt from hhalt]
      | none =>
        rw [show ((s.runStatement fuel statement).behind first).halt = none from hhalt]
        exact ih _

section Runs

variable {fuel : Nat} {s : Session} {source : String} {s' : Session} {front rest : List Stmt}

/-- **A run of the front of a program** leaves the table as it is. -/
theorem front_distances (m : Manner) (h : Reached fuel s)
    (haccept : s.accept source = (s', some (front ++ rest))) :
    (m.run fuel s' front).session.machine.distances = s'.machine.distances := by
  obtain ⟨w, hclosed, hsound, hcovered⟩ := h.sound (m.entry source)
  cases m with
  | file =>
    have hrun := file_front_ok hclosed hsound hcovered haccept
    exact (settle_ok hrun.after hrun.fault).after.distances
  | line => exact (line_front_ok hclosed hsound hcovered haccept).after.distances

theorem run_nextId (m : Manner) (s : Session) (ss : List Stmt) :
    (m.run fuel s ss).session.nextId = s.nextId := by
  cases m with
  | file => exact settle_nextId s _
  | line => exact runStatements_nextId s ss

theorem run_like {L : Likeness} {δ : Nat} (fuel : Nat) (m : Manner) {s s' : Session}
    (hs : ReportedLike L δ s s') {ss ss' : List Stmt} (hss : StmtsLike L [.same] ss ss') :
    StepLike L δ (m.run fuel s ss) (m.run fuel s' ss') := by
  cases m with
  | file => exact runProgram_like fuel hs hss
  | line => exact runStatements_like fuel hs hss

end Runs

/-! ## 3. The whole and its pieces -/

/-- What is seen of two steps that are one. -/
def Seen.merge (o next : Seen) : Seen :=
  { next with
    reports := o.reports ++ next.reports
    hasStatic := o.hasStatic || next.hasStatic
    hasRuntime := o.hasRuntime || next.hasRuntime }

/-- The first two steps made one. -/
def mergeFirst : List Seen → List Seen
  | o :: next :: rest => o.merge next :: rest
  | os => os

theorem seen_behind (t t' : Step) : (t'.behind t.session.diagnostics).seen = t.seen.merge t'.seen := rfl

section Whole

variable {fuel : Nat} {s : Session} {a b : String} (m : Manner)

/-- The first free reference behind the first piece. -/
abbrev nextOf (s : Session) (a : String) : Nat := (readingOf a s.nextId).nextId

/-- What is read of the second piece where it stands in the whole. -/
def secondOf (s : Session) (a b : String) : Reading :=
  readingOf (Token.pushedDown (linesOf a) b) (nextOf s a)

/-- The machine on which the whole is run. -/
def loadedWhole (s : Session) (a b : String) : Machine :=
  { s.loaded a with
    distances := (s.loaded a).distances.noteAll (resolve (secondOf s a b).statements) }

theorem programOf_joined (ha : Passes a) (hb : Passes b) (s : Session) :
    s.programOf (a ++ "\n" ++ b) = s.programOf a ++ (secondOf s a b).statements :=
  congrArg Reading.statements (reading_joined ha hb s.nextId)

theorem accept_joined (ha : Passes a) (hb : Passes b) (s : Session) :
    s.accept (a ++ "\n" ++ b) = (⟨loadedWhole s a b, (secondOf s a b).nextId, .empty⟩,
      some (s.programOf a ++ (secondOf s a b).statements)) := by
  have hread : readingOf (a ++ "\n" ++ b) s.nextId
      = ⟨s.programOf a ++ (secondOf s a b).statements, [], (secondOf s a b).nextId⟩ :=
    reading_joined ha hb s.nextId
  have hloaded : s.loaded (a ++ "\n" ++ b) = loadedWhole s a b := by
    have hnoted := resolve_joined ha s.nextId (secondOf s a b).statements
    unfold loadedWhole Session.loaded
    rw [programOf_joined ha hb, show resolve (s.programOf a ++ _) = _ from hnoted]
    unfold Distances.noteAll
    rw [List.foldl_append]
    rfl
  rw [accept_passes (passes_joined ha hb), programOf_joined ha hb, hloaded, hread]

/-- What is noted about the second piece is about its own references. -/
theorem second_noted (hb : Passes b) (s : Session) (a : String) (d : Distances) {id : RefId}
    (hid : id.index < nextOf s a) :
    (d.noteAll (resolve (secondOf s a b).statements)).find? id = d.find? id :=
  find?_noteAll_parsed ((passes_pushedDown (linesOf a) hb).parsed _) (.inl hid)

/-- **Behind the front end**, the sessions of the first piece and of the whole are alike. -/
theorem accepted_like (h : Reached fuel s) (ha : Passes a) (hb : Passes b) :
    ∃ δ, ReportedLike (.plain (given (nextOf s a)) .none) δ (s.accept a).1
      (s.accept (a ++ "\n" ++ b)).1 := by
  obtain ⟨κs, hm⟩ := (h.self_like .none).machine
  have hle : s.nextId ≤ nextOf s a := (Syntax.parse_ends _ _).1
  have hlater : nextOf s a ≤ (secondOf s a b).nextId := (Syntax.parse_ends _ _).1
  obtain ⟨δ, hδ⟩ := Nat.exists_eq_add_of_le hlater
  have htables : TablesLike (.plain (given (nextOf s a)) .none) (s.loaded a).distances
      (loadedWhole s a b).distances := by
    intro keys r r' hr
    obtain ⟨hid, hlt⟩ := hr.2.ids
    rw [show r'.id = r.id from congrArg RefId.mk hid]
    exact second_noted hb s a _ hlt
  have hlike := hm.mono (Likeness.plain_within
    (fun hi => ⟨hi.1, Nat.lt_of_lt_of_le hi.2 hle⟩) id) htables.refs
  rw [accept_joined ha hb, accept_passes ha]
  exact ⟨δ, ⟨⟨κs, hlike⟩, hδ⟩, .empty⟩

/-- **The first piece and the front of the whole** run alike. -/
theorem front_like (h : Reached fuel s) (ha : Passes a) (hb : Passes b) :
    ∃ δ, StepLike (.plain (given (nextOf s a)) .none) δ (s.feed fuel (m.entry a))
      (m.run fuel (s.accept (a ++ "\n" ++ b)).1 (s.programOf a)) := by
  obtain ⟨δ, hlike⟩ := accepted_like h ha hb
  have hread : ReadingLike (given (nextOf s a)) .none 0 (readingOf a s.nextId)
      (readingOf a (s.nextId + 0)) := reading_like (.refl .none a) fun i _ hlt => ⟨rfl, hlt⟩
  rw [feed_passes ha]
  exact ⟨δ, run_like fuel m hlike (hread.statements _ same_keys)⟩

theorem goesOn_like {L : Likeness} {δ : Nat} {t t' : Step} (h : StepLike L δ t t') :
    m.GoesOn t ↔ m.GoesOn t' := by
  have hhalt : t.halt = none ↔ t'.halt = none := by
    have hrel := h.halt
    generalize t.halt = halt, t'.halt = halt' at hrel
    cases hrel <;> simp
  unfold Manner.GoesOn
  rw [hhalt, h.session.diagnostics.hasRuntime]

/-- **The step of the whole** is that of its front, and the rest if it goes on. -/
theorem feed_joined (fuel : Nat) (ha : Passes a) (hb : Passes b) (s : Session) :
    s.feed fuel (m.entry (a ++ "\n" ++ b)) =
      let t := m.run fuel (s.accept (a ++ "\n" ++ b)).1 (s.programOf a)
      if m.GoesOn t then m.run fuel t.session (secondOf s a b).statements else t := by
  rw [feed_passes (passes_joined ha hb), programOf_joined ha hb]
  refine run_append fuel m _ _ _ ?_
  rw [accept_joined ha hb]
  rfl

theorem entry_source (source : String) : (m.entry source).source?.isSome = true := by
  cases m <;> rfl

theorem feed_first_nextId (fuel : Nat) (ha : Passes a) (s : Session) :
    (s.feed fuel (m.entry a)).session.nextId = nextOf s a := by
  rw [feed_passes ha, run_nextId, accept_nextId]

/-- Where the first piece is cut short, the second one is not run. -/
theorem watch_stopped (h : Reached fuel s) (ha : Passes a) (hb : Passes b)
    (hstop : ¬ m.GoesOn (s.feed fuel (m.entry a))) (later : List Entry) :
    s.watch fuel (m.entry (a ++ "\n" ++ b) :: later) = s.watch fuel (m.entry a :: later) := by
  obtain ⟨δ, hlike⟩ := front_like m h ha hb
  have hstep := feed_joined m fuel ha hb s
  dsimp only at hstep
  rw [if_neg fun hgoes => hstop ((goesOn_like m hlike).mpr hgoes)] at hstep
  rw [← hstep] at hlike
  have hnext := feed_first_nextId m fuel ha s
  -- neither session has anything about the references that it gives out next
  have hskip := hlike.session.toSessionLike.skip hnext (h.feed _).fresh (h.feed _).fresh
  have hrest := watch_eq fuel (skipping_oneToOne _ δ .none) hskip.drain later fun i hle =>
    .inr ⟨hnext ▸ hle, rfl⟩
  rw [watch_source _ _ (entry_source m _), watch_source _ _ (entry_source m _), hrest,
    hlike.seen.eq_plain]

/-- Behind the first piece and behind the front of the whole, the tables are the same once the second
    piece is noted. -/
theorem second_distances (h : Reached fuel s) (ha : Passes a) (hb : Passes b) :
    (m.run fuel (s.accept (a ++ "\n" ++ b)).1 (s.programOf a)).session.machine.distances
      = (s.feed fuel (m.entry a)).session.machine.distances.noteAll
        (resolve (secondOf s a b).statements) := by
  have hwhole := front_distances m h (accept_joined ha hb s)
  have haccept : s.accept a = ((s.accept a).1, some (s.programOf a ++ [])) := by
    rw [accept_passes ha, List.append_nil]
  have hfirst := front_distances m h haccept
  rw [accept_joined ha hb, hwhole, feed_passes ha, hfirst, accept_passes ha]
  rfl

/-- **Where the first piece goes on**, the second one is run like the rest of the whole. -/
theorem second_like (h : Reached fuel s) (ha : Passes a) (hb : Passes b) :
    let t := m.run fuel (s.accept (a ++ "\n" ++ b)).1 (s.programOf a)
    StepLike (.plain Eq .none) 0
      ((s.feed fuel (m.entry a)).session.drain.2.feed fuel
        (m.entry (Token.pushedDown (linesOf a) b)))
      (m.run fuel { t.session with diagnostics := .empty } (secondOf s a b).statements) := by
  intro t
  have hdown := passes_pushedDown (linesOf a) hb
  obtain ⟨δ, hlike⟩ := front_like m h ha hb
  obtain ⟨κs, hm⟩ := hlike.session.machine
  have hnext := feed_first_nextId m fuel ha s
  have htable := second_distances m h ha hb
  have hself : ReadingLike Eq .none 0 (secondOf s a b) (secondOf s a b) :=
    reading_like (.refl .none _) fun _ _ _ => rfl
  generalize s.feed fuel (m.entry a) = first at hlike hm hnext htable ⊢
  have hread : readingOf (Token.pushedDown (linesOf a) b) first.session.drain.2.nextId
      = secondOf s a b := congrArg (readingOf _) hnext
  have htables : TablesLike (.plain Eq .none)
      (first.session.machine.distances.noteAll (resolve (secondOf s a b).statements))
      t.session.machine.distances := by
    intro keys r r' hr
    rw [htable, show r'.id = r.id from congrArg RefId.mk hr.2.ids.symm]
  have hmachine := hm.mono (Likeness.plain_within (fun hi => hi.1.symm) id) htables.refs
  rw [feed_passes hdown, accept_passes hdown]
  unfold Session.loaded Session.programOf
  rw [show Reading.ofBytes _ first.session.drain.2.nextId = _ from hread]
  refine run_like fuel m ⟨⟨⟨κs, hmachine⟩, ?_⟩, .empty⟩ (hself.statements _ same_keys)
  show t.session.nextId = _
  rw [run_nextId, accept_joined ha hb, hread]
  rfl

theorem watch_goes_on (h : Reached fuel s) (ha : Passes a) (hb : Passes b)
    (hgoes : m.GoesOn (s.feed fuel (m.entry a))) (later : List Entry) :
    s.watch fuel (m.entry (a ++ "\n" ++ b) :: later) = mergeFirst
      (s.watch fuel (m.entry a :: m.entry (Token.pushedDown (linesOf a) b) :: later)) := by
  obtain ⟨δ, hlike⟩ := front_like m h ha hb
  have hstep := feed_joined m fuel ha hb s
  dsimp only at hstep
  rw [if_pos ((goesOn_like m hlike).mp hgoes)] at hstep
  have hsecond := second_like m h ha hb
  dsimp only at hsecond
  generalize m.run fuel (s.accept (a ++ "\n" ++ b)).1 (s.programOf a) = t at hlike hstep hsecond
  -- the rest of the whole, with nothing reported before it
  have hbehind : t.session = Session.behind { t.session with diagnostics := .empty }
      t.session.diagnostics := by
    unfold Session.behind
    rw [Diagnostics.empty_behind]
  rw [hbehind, run_behind] at hstep
  have hdrained : SessionLike (.plain Eq .none) 0
      ((s.feed fuel (m.entry a)).session.drain.2.feed fuel
        (m.entry (Token.pushedDown (linesOf a) b))).session.drain.2
      ((m.run fuel { t.session with diagnostics := .empty } (secondOf s a b).statements).behind
        t.session.diagnostics).session.drain.2 :=
    ⟨hsecond.session.machine, hsecond.session.nextId⟩
  have hrest := watch_eq fuel (Likeness.plain_oneToOne fun hi hj => by rw [hi, hj])
    hdrained later fun _ _ => rfl
  rw [watch_source _ _ (entry_source m _), watch_source _ _ (entry_source m _),
    watch_source _ _ (entry_source m _), hstep, seen_behind, hlike.seen.eq_plain,
    hsecond.seen.eq_plain]
  exact congrArg (List.cons _) hrest

end Whole

/-! ## 4. Errors further down -/

namespace Report

theorem mapPos_id (r : Report) : r.mapPos id = r := by
  cases r with
  | runtime e => cases e <;> rfl
  | _ => rfl

theorem mapPos_mapPos (f g : Position → Position) (r : Report) :
    (r.mapPos f).mapPos g = r.mapPos (g ∘ f) := by
  cases r with
  | runtime e => cases e <;> rfl
  | _ => rfl

/-- A report some lines further down. -/
def down (k : Nat) (r : Report) : Report := r.mapPos (Position.down k)

theorem down_injective (k : Nat) : Function.Injective (down k) := by
  refine Function.LeftInverse.injective (g := mapPos fun p => ⟨p.line - k, p.column⟩) fun r => ?_
  have hback : (fun p : Position => (⟨p.line - k, p.column⟩ : Position)) ∘ Position.down k = id := by
    funext p
    simp [Position.down]
  unfold down
  rw [mapPos_mapPos, hback, mapPos_id]

theorem down_add (k l : Nat) (r : Report) : (r.down k).down l = r.down (k + l) := by
  have hboth : (Position.down l) ∘ (Position.down k) = Position.down (k + l) := by
    funext p
    simp [Position.down, Nat.add_assoc]
  unfold down
  rw [mapPos_mapPos, hboth]

theorem down_zero (r : Report) : r.down 0 = r := r.mapPos_id

/-- A report that one line does not move has no place. -/
theorem down_fixed {r : Report} (h : r.down 1 = r) (k : Nat) : r.down k = r := by
  induction k with
  | zero => exact r.down_zero
  | succ k ih => rw [Nat.add_comm, ← down_add, h, ih]

end Report

/-- Like reports are the same, or they are one report, `k` and `l` lines further down. -/
theorem ReportLike.moved {ids : Nat → Nat → Prop} {k l : Nat} {r r' : Report}
    (h : ReportLike (.plain ids (.between k l)) r r') :
    r' = r ∨ ∃ q : Report, r = q.down k ∧ r' = q.down l := by
  obtain ⟨p, p', hp, hr, hr'⟩ := h.place
  rcases hp with rfl | ⟨q, rfl, rfl⟩
  · exact .inl (hr'.trans hr.symm)
  · refine .inr ⟨r.mapPos fun _ => q, ?_, ?_⟩
    · unfold Report.down
      rw [Report.mapPos_mapPos]
      exact hr
    · unfold Report.down
      rw [Report.mapPos_mapPos]
      exact hr'

/-- **A report that one line moves** is moved by any number of lines, and any other report by none. -/
theorem moved_cases {ids ids₁ idsₖ : Nat → Nat → Prop} {k : Nat} {r₀ r₁ r : Report}
    (h₁ : ReportLike (.plain ids₁ (.between 0 1)) r₀ r₁)
    (h : ReportLike (.plain ids (.between 0 k)) r₀ r)
    (h₁ₖ : ReportLike (.plain idsₖ (.between 1 k)) r₁ r) :
    r = if r₁ ≠ r₀ then r₀.down k else r₀ := by
  have hstart : ∀ {l : Nat} {r : Report},
      (r = r₀ ∨ ∃ q : Report, r₀ = q.down 0 ∧ r = q.down l) → r = r₀ ∨ r = r₀.down l := by
    rintro l r (h | ⟨q, hq, h⟩)
    · exact .inl h
    · rw [q.down_zero] at hq
      exact .inr (hq ▸ h)
  have hone := hstart h₁.moved
  have hk := hstart h.moved
  split
  · next hmoves =>
    have hone : r₁ = r₀.down 1 := hone.resolve_left hmoves
    rcases h₁ₖ.moved with heq | ⟨q, hq, hr⟩
    · rcases hk with hk | hk
      · exact absurd (heq.symm.trans hk) hmoves
      · exact hk
    · rw [hr, Report.down_injective 1 (hone.symm.trans hq)]
  · next hstays =>
    have hone : r₁ = r₀ := not_not.mp hstays
    rcases h₁ₖ.moved with heq | ⟨q, hq, hr⟩
    · exact heq.trans hone
    · rcases hk with hk | hk
      · exact hk
      · -- it would be moved by `k` lines, and by one more
        have hstart : q.down 1 = r₀ := hq.symm.trans hone
        have hfixed : q.down 1 = q := Report.down_injective k (by rw [hstart, ← hk, hr])
        rw [hr, Report.down_fixed hfixed, ← hstart, hfixed]

/-- A step that is seen, with some of its errors some lines further down. -/
def Seen.down (k : Nat) (moves : Nat → Bool) (o : Seen) : Seen :=
  { o with reports := o.reports.mapIdx fun j r => if moves j then r.down k else r }

/-- What is seen, with some of the errors some lines further down. -/
def downAll (k : Nat) (moves : Nat → Nat → Bool) (os : List Seen) : List Seen :=
  os.mapIdx fun i o => o.down k (moves i)

/-- An error of a step. -/
def reportAt (os : List Seen) (i j : Nat) : Option Report := os[i]?.bind fun o => o.reports[j]?

theorem forall₂_getElem? {α β : Type} {R : α → β → Prop} {l : List α} {l' : List β}
    (h : List.Forall₂ R l l') (i : Nat) : Option.Rel R l[i]? l'[i]? := by
  induction h generalizing i with
  | nil => exact .none
  | cons hfirst _ ih =>
    cases i with
    | zero => exact .some hfirst
    | succ i => exact ih i

section Moved

variable {ids : Nat → Nat → Prop} {k : Nat}

theorem seen_moved {o₀ o₁ o : Seen} (h₁ : SeenLike (.plain ids (.between 0 1)) o₀ o₁)
    (h : SeenLike (.plain ids (.between 0 k)) o₀ o)
    (h₁ₖ : SeenLike (.plain ids (.between 1 k)) o₁ o) :
    o = o₀.down k fun j => decide (o₁.reports[j]? ≠ o₀.reports[j]?) := by
  have hreports : o.reports = o₀.reports.mapIdx fun j r =>
      if decide (o₁.reports[j]? ≠ o₀.reports[j]?) then r.down k else r := by
    refine List.ext_getElem? fun j => ?_
    rw [List.getElem?_mapIdx]
    have hone := forall₂_getElem? h₁.reports j
    have hk := forall₂_getElem? h.reports j
    have honek := forall₂_getElem? h₁ₖ.reports j
    generalize o₀.reports[j]? = r₀, o₁.reports[j]? = r₁, o.reports[j]? = r at hone hk honek ⊢
    cases hone with
    | none =>
      cases hk
      rfl
    | some hone =>
      cases hk with | some hk =>
      cases honek with | some honek =>
      rw [moved_cases hone hk honek]
      simp
  obtain ⟨_, _, _, _, _, _, _⟩ := o
  unfold Seen.down
  rw [Seen.mk.injEq]
  exact ⟨hreports, h.hasStatic, h.hasRuntime, h.sink, h.input, h.names, h.starved⟩

/-- **What one line moves** is moved by any number of lines, and all else that is seen stays. -/
theorem all_moved {os₀ os₁ os : List Seen}
    (h₁ : List.Forall₂ (SeenLike (.plain ids (.between 0 1))) os₀ os₁)
    (h : List.Forall₂ (SeenLike (.plain ids (.between 0 k))) os₀ os)
    (h₁ₖ : List.Forall₂ (SeenLike (.plain ids (.between 1 k))) os₁ os) :
    os = downAll k (fun i j => decide (reportAt os₁ i j ≠ reportAt os₀ i j)) os₀ := by
  unfold downAll reportAt
  refine List.ext_getElem? fun i => ?_
  rw [List.getElem?_mapIdx]
  beta_reduce
  have hone := forall₂_getElem? h₁ i
  have hk := forall₂_getElem? h i
  have honek := forall₂_getElem? h₁ₖ i
  generalize os₀[i]? = o₀, os₁[i]? = o₁, os[i]? = o at hone hk honek ⊢
  cases hone with
  | none =>
    cases hk
    rfl
  | some hone =>
    cases hk with | some hk =>
    cases honek with | some honek =>
    exact congrArg some (seen_moved hone hk honek)

/-- The pieces, with the second one `k` or `l` lines further down. -/
theorem watch_between {fuel : Nat} {s : Session} (h : Reached fuel s) (m : Manner) (k l : Nat)
    (a b : String) (later : List Entry) :
    List.Forall₂ (SeenLike (.plain Eq (.between k l)))
      (s.watch fuel (m.entry a :: m.entry (Token.pushedDown k b) :: later))
      (s.watch fuel (m.entry a :: m.entry (Token.pushedDown l b) :: later)) := by
  obtain ⟨κs, hm⟩ := (h.self_like (.between k l)).machine
  have hself : SessionLike (.plain Eq (.between k l)) 0 s s := by
    have htables : TablesLike (.plain Eq (.between k l)) s.machine.distances
        s.machine.distances := by
      intro keys r r' hr
      rw [show r'.id = r.id from congrArg RefId.mk hr.2.ids.symm]
    exact ⟨⟨κs, hm.mono (Likeness.plain_within (fun hi => hi.1.symm) id) htables.refs⟩, rfl⟩
  have hentry : ∀ {source source' : String}, SourceLike (.between k l) source source' →
      EntryLike (.between k l) (m.entry source) (m.entry source') := by
    intro source source' hsource
    cases m with
    | file => exact .file hsource
    | line => exact .line hsource
  refine watch_like fuel (Likeness.plain_oneToOne fun hi hj => by rw [hi, hj]) hself ?_
    fun _ _ => rfl
  exact .cons (hentry (.refl _ a)) (.cons (hentry (sourceLike_pushedDown k l b))
    (List.forall₂_same.mpr fun e _ => .refl _ e))

end Moved

end Lox
