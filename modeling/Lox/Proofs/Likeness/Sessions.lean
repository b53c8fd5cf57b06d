import Lox.Proofs.Likeness.Findings
import Lox.Proofs.Likeness.Parsing
import Lox.Proofs.Likeness.Steps
import Lox.Proofs.Session.Visits

/-!
# Sessions that are alike

Two sessions are alike if their machines are, and if they have reported like errors. The second may be
any number of references ahead.

* `StepLike`: two steps.
* `runAll_like`, `runStatements_like`: programs that are alike run alike in sessions that are.
* `accept_like`: **the front end**. Two sources of like tokens are both refused or both let through,
  if all references that the first gets are alike to those that the second gets.
* `feed_like`: a step of either kind.
* `after_self`: a session is like itself, with the references that it has given out so far.
-/

namespace Lox

variable {L : Likeness} {δ : Nat} {s s' : Session}

/-! ## 1. What is shown -/

/-- Two reports. -/
inductive ReportLike (L : Likeness) : Report → Report → Prop where
  | lexical {message p p'} (hp : L.pos p p') :
      ReportLike L (.lexical message p) (.lexical message p')
  | parse {message location p p'} (hp : L.pos p p') :
      ReportLike L (.parse message location p) (.parse message location p')
  | static {message lexeme p p'} (hp : L.pos p p') :
      ReportLike L (.static message lexeme p) (.static message lexeme p')
  | runtime {e e'} (h : ErrorLike L e e') : ReportLike L (.runtime e) (.runtime e')
  | io {text} : ReportLike L (.io text) (.io text)

/-- Two lists of reports. -/
abbrev ReportsLike (L : Likeness) : List Report → List Report → Prop := List.Forall₂ (ReportLike L)

theorem ReportLike.isStatic {r r' : Report} (h : ReportLike L r r') : r'.isStatic = r.isStatic := by
  cases h <;> rfl

/-- What two steps have reported. -/
structure DiagnosticsLike (L : Likeness) (d d' : Diagnostics) : Prop where
  reports : ReportsLike L d.reports d'.reports
  hasStatic : d'.hasStatic = d.hasStatic
  hasRuntime : d'.hasRuntime = d.hasRuntime

namespace DiagnosticsLike

theorem empty : DiagnosticsLike L .empty .empty := ⟨.nil, rfl, rfl⟩

theorem report {d d' : Diagnostics} (h : DiagnosticsLike L d d') {r r' : Report}
    (hr : ReportLike L r r') : DiagnosticsLike L (d.report r) (d'.report r') where
  reports := List.rel_append h.reports (.cons hr .nil)
  hasStatic := by simp only [Diagnostics.report, h.hasStatic, hr.isStatic]
  hasRuntime := by simp only [Diagnostics.report, h.hasRuntime, hr.isStatic]

theorem reportAll {d d' : Diagnostics} (h : DiagnosticsLike L d d') {rs rs' : List Report}
    (hrs : ReportsLike L rs rs') : DiagnosticsLike L (d.reportAll rs) (d'.reportAll rs') := by
  induction hrs generalizing d d' with
  | nil => exact h
  | cons hr _ ih => exact ih (h.report hr)

end DiagnosticsLike

/-- **Two sessions**, the second of which is `δ` references ahead. -/
structure SessionLike (L : Likeness) (δ : Nat) (s s' : Session) : Prop where
  machine : ∃ κs, MachineLike L κs s.machine s'.machine
  nextId : s'.nextId = s.nextId + δ

/-- Two sessions that have reported like errors. -/
structure ReportedLike (L : Likeness) (δ : Nat) (s s' : Session) : Prop
    extends SessionLike L δ s s' where
  diagnostics : DiagnosticsLike L s.diagnostics s'.diagnostics

/-- Why two sessions cannot go on. -/
inductive HaltLike : Halt → Halt → Prop where
  | fault {f f'} : HaltLike (.fault f) (.fault f')
  | starved : HaltLike .starved .starved

/-- **Two steps.** -/
structure StepLike (L : Likeness) (δ : Nat) (t t' : Step) : Prop where
  session : ReportedLike L δ t.session t'.session
  halt : Option.Rel HaltLike t.halt t'.halt

theorem ReportedLike.report (h : ReportedLike L δ s s') {rs rs' : List Report}
    (hrs : ReportsLike L rs rs') : ReportedLike L δ (s.report rs) (s'.report rs') :=
  ⟨⟨h.machine, h.nextId⟩, h.diagnostics.reportAll hrs⟩

/-! ## 2. Runs -/

/-- What two statements at the top come to. -/
inductive YieldLike (L : Likeness) (κs : List Renaming) : Yield → Yield → Prop where
  | value {v v'} (h : ValueLike L κs v v') : YieldLike L κs (.value v) (.value v')
  | signal {r r'} (h : SignalLike L κs r r') : YieldLike L κs (.signal r) (.signal r')

section Runs

variable {κs : List Renaming}

theorem RunsLike.map {α β : Type} {V : List Renaming → α → α → Prop}
    {W : List Renaming → β → β → Prop} {x x' : Run α} {f : α → β} (hx : RunsLike L κs V x x')
    (h : ∀ κs' a a', V κs' a a' → W κs' (f a) (f a')) : RunsLike L κs W (f <$> x) (f <$> x') := by
  rw [map_eq_pure_bind, map_eq_pure_bind]
  exact hx.bind fun κs' a a' _ hv => .pure (h κs' a a' hv)

/-- The names of the global frame stay. -/
theorem same_keys : ∀ r ∈ [Renaming.same], r = .same := fun _ hr => List.mem_singleton.mp hr

theorem globals_keys (hκ : κs[Store.globalFrame]? = some .same) :
    EnvKeys κs Store.globals [.same] := .cons hκ .nil

theorem runAll_like (fuel : Nat) (hκ : κs[Store.globalFrame]? = some .same) {ss ss' : List Stmt}
    (hss : StmtsLike L [.same] ss ss') : RunsLike L κs Any (runAll fuel ss) (runAll fuel ss') := by
  induction ss generalizing ss' κs with
  | nil =>
    cases hss with
    | nil => exact .pure trivial
  | cons s rest ih =>
    cases hss with
    | cons h hrest =>
      refine ((likeAt L fuel).execute (globals_keys hκ) h).bind fun κs₁ _ _ hκ₁ _ => ?_
      exact ih (prefix_getElem? hκ₁ hκ) hrest

theorem perform_like (fuel : Nat) (hκ : κs[Store.globalFrame]? = some .same) {statement statement' : Stmt}
    (h : StmtLike L [.same] statement statement') :
    RunsLike L κs (YieldLike L) (perform fuel statement) (perform fuel statement') := by
  have hexecute := RunsLike.map (W := YieldLike L) (f := Yield.signal)
    ((likeAt L fuel).execute (globals_keys hκ) h) fun _ _ _ hr => .signal hr
  cases h with
  | expr h =>
    exact .map ((likeAt L fuel).evaluate (globals_keys hκ) h) fun _ _ _ hv => .value hv
  | _ => exact hexecute

end Runs

theorem settle_like {α : Type} {V : α → α → Prop} {r r' : Except Stop α × Machine}
    (hs : ReportedLike L δ s s') (hm : ∃ κs, MachineLike L κs r.2 r'.2)
    (hr : OutcomeLike L V r.1 r'.1) : StepLike L δ (s.settle r) (s'.settle r') := by
  obtain ⟨r, m⟩ := r
  obtain ⟨r', m'⟩ := r'
  have hafter : ReportedLike L δ { s with machine := m } { s' with machine := m' } :=
    ⟨⟨hm, hs.nextId⟩, hs.diagnostics⟩
  cases hr with
  | ok _ => exact ⟨hafter, .none⟩
  | error h =>
    cases h with
    | error he => exact ⟨hafter.report (.cons (.runtime he) .nil), .none⟩
    | fault => exact ⟨hafter, .some .fault⟩
    | starved => exact ⟨hafter, .some .starved⟩

theorem runStatement_like (fuel : Nat) (hs : ReportedLike L δ s s') {statement statement' : Stmt}
    (h : StmtLike L [.same] statement statement') :
    StepLike L δ (s.runStatement fuel statement) (s'.runStatement fuel statement') := by
  obtain ⟨κs, hm⟩ := hs.machine
  obtain ⟨κs₁, _, hm₁, hr⟩ := perform_like fuel hm.global h _ _ hm
  unfold Session.runStatement
  generalize (perform fuel statement).run s.machine = o,
    (perform fuel statement').run s'.machine = o' at hm₁ hr ⊢
  obtain ⟨r, m⟩ := o
  obtain ⟨r', m'⟩ := o'
  cases hr with
  | error he => exact settle_like (V := fun _ _ => True) hs ⟨κs₁, hm₁⟩ (.error he)
  | ok hy =>
    cases hy with
    | signal _ => exact settle_like (V := fun _ _ => True) hs ⟨κs₁, hm₁⟩ (.ok trivial)
    | @value v v' hv =>
      -- the value is shown
      obtain ⟨κs₂, _, hm₂, hw⟩ := write_like (v.display ++ "\n") _ _ hm₁
      dsimp only at hm₂ hw
      unfold echo
      simp only [hv.display]
      generalize (write (v.display ++ "\n")).run m = o,
        (write (v.display ++ "\n")).run m' = o' at hm₂ hw ⊢
      obtain ⟨w, m₁⟩ := o
      obtain ⟨w', m₁'⟩ := o'
      cases hw with
      | error he => exact settle_like (V := fun _ _ => True) hs ⟨κs₂, hm₂⟩ (.error he)
      | @ok a a' ha =>
        subst ha
        cases a' with
        | ok _ => exact settle_like (V := fun _ _ => True) hs ⟨κs₂, hm₂⟩ (.ok trivial)
        | error e =>
          have hafter : ReportedLike L δ { s with machine := m₁ } { s' with machine := m₁' } :=
            ⟨⟨⟨κs₂, hm₂⟩, hs.nextId⟩, hs.diagnostics⟩
          exact ⟨hafter.report (.cons .io .nil), .none⟩

theorem runStatements_like (fuel : Nat) (hs : ReportedLike L δ s s') {ss ss' : List Stmt}
    (hss : StmtsLike L [.same] ss ss') :
    StepLike L δ (s.runStatements fuel ss) (s'.runStatements fuel ss') := by
  induction ss generalizing ss' s s' with
  | nil =>
    cases hss with
    | nil => exact ⟨hs, .none⟩
  | cons statement rest ih =>
    cases hss with
    | cons h hrest =>
      have hfirst := runStatement_like fuel hs h
      have hhalt := hfirst.halt
      rw [Session.runStatements, Session.runStatements]
      generalize s.runStatement fuel statement = t,
        s'.runStatement fuel _ = t' at hfirst hhalt ⊢
      obtain ⟨u, halt⟩ := t
      obtain ⟨u', halt'⟩ := t'
      cases hhalt with
      | none => exact ih hfirst.session hrest
      | some _ => exact hfirst

theorem runProgram_like (fuel : Nat) (hs : ReportedLike L δ s s') {ss ss' : List Stmt}
    (hss : StmtsLike L [.same] ss ss') :
    StepLike L δ (s.settle ((runAll fuel ss).run s.machine))
      (s'.settle ((runAll fuel ss').run s'.machine)) := by
  obtain ⟨κs, hm⟩ := hs.machine
  obtain ⟨κs₁, _, hm₁, hr⟩ := runAll_like fuel hm.global hss _ _ hm
  exact settle_like hs ⟨κs₁, hm₁⟩ hr

/-! ## 3. The front end -/

/-- Two sources of like tokens and like faults. -/
structure SourceLike (shift : Shift) (source source' : String) : Prop where
  tokens : List.Forall₂ (TokenLike shift.rel)
    (Token.tokensOf (Token.scan (Text.Utf8.encode source)))
    (Token.tokensOf (Token.scan (Text.Utf8.encode source')))
  faults : List.Forall₂ (fun e e' => e'.fault = e.fault ∧ shift.rel e.pos e'.pos)
    (Token.errorsOf (Token.scan (Text.Utf8.encode source)))
    (Token.errorsOf (Token.scan (Text.Utf8.encode source')))

theorem SourceLike.refl (shift : Shift) (source : String) : SourceLike shift source source :=
  ⟨List.forall₂_same.mpr fun _ _ => ⟨rfl, rfl, shift.refl _⟩,
    List.forall₂_same.mpr fun _ _ => ⟨rfl, shift.refl _⟩⟩

/-- A scan has an end. -/
theorem scan_ends (bytes : List UInt8) : ∃ t ∈ Token.tokensOf (Token.scan bytes), t.kind = .eof := by
  have hitems : ∀ (ps : List Token.Piece) (p : Position),
      ∃ t, .ok t ∈ Token.itemsFrom p ps ∧ t.kind = .eof := by
    intro ps
    induction ps with
    | nil => exact fun p => ⟨Token.endAt p, List.mem_cons_self, rfl⟩
    | cons piece rest ih =>
      intro p
      obtain ⟨t, ht, hkind⟩ := ih (Token.after p piece.bytes)
      exact ⟨t, List.mem_append_right _ ht, hkind⟩
  obtain ⟨t, ht, hkind⟩ := hitems (Token.pieces bytes) Token.start
  rw [← Token.scan_pieces] at ht
  exact ⟨t, List.mem_filterMap.mpr ⟨_, ht, rfl⟩, hkind⟩

section FrontEnd

variable {ids : Nat → Nat → Prop} {shift : Shift}

/-- **Two readings**, from `k` on and from `k + δ` on. -/
structure ReadingLike (ids : Nat → Nat → Prop) (shift : Shift) (δ : Nat) (r r' : Reading) :
    Prop where
  statements : ∀ keys : List Renaming, (∀ r ∈ keys, r = .same) →
    StmtsLike (.plain ids shift) keys r.statements r'.statements
  reports : ReportsLike (.plain ids shift) r.reports r'.reports
  nextId : r'.nextId = r.nextId + δ

theorem reading_like {source source' : String} (h : SourceLike shift source source') {k : Nat}
    (hids : ∀ i, k ≤ i → i < (Reading.ofBytes (Text.Utf8.encode source) k).nextId →
      ids i (i + δ)) :
    ReadingLike ids shift δ (Reading.ofBytes (Text.Utf8.encode source) k)
      (Reading.ofBytes (Text.Utf8.encode source') (k + δ)) := by
  have hparsed := Syntax.parse_like k (k + δ) h.tokens (scan_ends _)
  refine ⟨fun keys hkeys => ?_, List.rel_append ?_ ?_, ?_⟩
  · refine (hparsed.statements keys hkeys).mono (Likeness.plain_within ?_ id)
    rintro i i' ⟨j, rfl, rfl, hlt⟩
    rw [Nat.add_right_comm]
    exact hids _ (Nat.le_add_right k j) hlt
  · rw [List.forall₂_map_left_iff, List.forall₂_map_right_iff]
    refine h.faults.imp fun e e' he => ?_
    unfold Report.ofLexical
    rw [he.1]
    exact .lexical he.2
  · rw [List.forall₂_map_left_iff, List.forall₂_map_right_iff]
    refine hparsed.errors.imp fun e e' he => ?_
    unfold Report.ofSyntax Report.aboutSyntax Report.location
    rw [he.complaint, he.token.kind, he.token.lexeme]
    exact .parse he.token.pos
  · obtain ⟨j, hj, hj'⟩ := hparsed.ids
    show (Syntax.parse _ _).nextId = (Syntax.parse _ _).nextId + δ
    rw [hj, hj', Nat.add_right_comm]

theorem complaints_like {found found' : List Finding}
    (h : FindingsLike (.plain ids shift) found found') :
    ReportsLike (.plain ids shift) ((complaintsOf found).map Report.ofScope)
      ((complaintsOf found').map Report.ofScope) := by
  induction h with
  | nil => exact .nil
  | cons hf _ ih =>
    cases hf with
    | reference _ => exact ih
    | @complaint r c t t' hr hlexeme hpos =>
      obtain rfl : r = .same := hr
      have hc : c.renamed .same = c := by cases c <;> rfl
      refine .cons ?_ ih
      show ReportLike _ (.static c.message t.lexeme t.pos)
        (.static (c.renamed .same).message t'.lexeme t'.pos)
      rw [hc, hlexeme]
      exact .static hpos

/-- The next reference behind a source. -/
theorem accept_nextId (s : Session) (source : String) :
    (s.accept source).1.nextId = (Reading.ofBytes (Text.Utf8.encode source) s.nextId).nextId := by
  unfold Session.accept
  dsimp only
  split
  · rfl
  · split <;> rfl

/-- Two programs, if there are any. -/
inductive ProgramLike (L : Likeness) : Option (List Stmt) → Option (List Stmt) → Prop where
  | none : ProgramLike L none none
  | some {ss ss'} (h : ∀ keys : List Renaming, (∀ r ∈ keys, r = .same) → StmtsLike L keys ss ss') :
      ProgramLike L (some ss) (some ss')

/-- **The front end.** -/
theorem accept_like (hone : (Likeness.plain ids shift).OneToOne)
    (hs : SessionLike (.plain ids shift) δ s s') {source source' : String}
    (h : SourceLike shift source source')
    (hids : ∀ i, s.nextId ≤ i → i < (s.accept source).1.nextId → ids i (i + δ)) :
    ReportedLike (.plain ids shift) δ (s.accept source).1 (s'.accept source').1 ∧
      ProgramLike (.plain ids shift) (s.accept source).2 (s'.accept source').2 := by
  rw [accept_nextId] at hids
  have hread := reading_like h hids
  have hfound := resolve_like (hread.statements [] fun _ hr => nomatch hr) (DepthsAgree.plain _)
  have hcomplaints := complaints_like hfound
  obtain ⟨κs, hm⟩ := hs.machine
  have htables := noteAll_like hone hfound fun _ _ _ hr => (hm.refs hr).1
  have hloaded := hm.mono (.refl _) htables.refs
  unfold Session.accept
  dsimp only
  rw [hs.nextId]
  generalize Reading.ofBytes (Text.Utf8.encode source) s.nextId = r,
    Reading.ofBytes (Text.Utf8.encode source') (s.nextId + δ) = r'
    at hread hcomplaints hloaded
  have hnil : r'.reports = [] ↔ r.reports = [] := by
    have hreports := hread.reports
    generalize r.reports = rs, r'.reports = rs' at hreports
    cases hreports <;> simp
  have hclean : (complaintsOf (resolve r'.statements)).map Report.ofScope = [] ↔
      (complaintsOf (resolve r.statements)).map Report.ofScope = [] := by
    generalize (complaintsOf (resolve r.statements)).map Report.ofScope = rs,
      (complaintsOf (resolve r'.statements)).map Report.ofScope = rs' at hcomplaints
    cases hcomplaints <;> simp
  by_cases hreports : r.reports = []
  · rw [if_neg (not_not.mpr hreports), if_neg (not_not.mpr (hnil.mpr hreports))]
    have hafter : ReportedLike (.plain ids shift) δ
        ⟨{ s.machine with distances := s.machine.distances.noteAll (resolve r.statements) },
          r.nextId, .empty⟩
        ⟨{ s'.machine with distances := s'.machine.distances.noteAll (resolve r'.statements) },
          r'.nextId, .empty⟩ := ⟨⟨⟨κs, hloaded⟩, hread.nextId⟩, .empty⟩
    by_cases hrules : (complaintsOf (resolve r.statements)).map Report.ofScope = []
    · rw [if_neg (not_not.mpr hrules), if_neg (not_not.mpr (hclean.mpr hrules))]
      exact ⟨hafter, .some hread.statements⟩
    · rw [if_pos hrules, if_pos fun hnone => hrules (hclean.mp hnone)]
      exact ⟨hafter.report hcomplaints, .none⟩
  · rw [if_pos hreports, if_pos fun hnone => hreports (hnil.mp hnone)]
    have hafter : ReportedLike (.plain ids shift) δ ⟨s.machine, r.nextId, .empty⟩
        ⟨s'.machine, r'.nextId, .empty⟩ := ⟨⟨⟨κs, hm⟩, hread.nextId⟩, .empty⟩
    exact ⟨hafter.report hread.reports, .none⟩

/-! ## 4. Steps -/

/-- Two entries of like sources. -/
inductive EntryLike (shift : Shift) : Entry → Entry → Prop where
  | file {source source'} (h : SourceLike shift source source') :
      EntryLike shift (.file source) (.file source')
  | line {source source'} (h : SourceLike shift source source') :
      EntryLike shift (.line source) (.line source')
  | outside {sink input now clock} : EntryLike shift (.outside sink input now clock) (.outside sink input now clock)

theorem EntryLike.refl (shift : Shift) (e : Entry) : EntryLike shift e e := by
  cases e with
  | file source => exact .file (.refl shift source)
  | line source => exact .line (.refl shift source)
  | outside => exact .outside

theorem settle_nextId {α : Type} (s : Session) (r : Except Stop α × Machine) :
    (s.settle r).session.nextId = s.nextId := by
  unfold Session.settle
  dsimp only
  split <;> rfl

theorem runStatement_nextId {fuel : Nat} (s : Session) (statement : Stmt) :
    (s.runStatement fuel statement).session.nextId = s.nextId := by
  unfold Session.runStatement
  split
  · split
    · rfl
    · exact settle_nextId s _
  · exact settle_nextId s _

theorem runStatements_nextId {fuel : Nat} (s : Session) (ss : List Stmt) :
    (s.runStatements fuel ss).session.nextId = s.nextId := by
  induction ss generalizing s with
  | nil => rfl
  | cons statement rest ih =>
    unfold Session.runStatements
    dsimp only
    split
    · exact runStatement_nextId s statement
    · exact (ih _).trans (runStatement_nextId s statement)

theorem runFile_nextId {fuel : Nat} (s : Session) (source : String) :
    (s.runFile fuel source).session.nextId = (s.accept source).1.nextId := by
  unfold Session.runFile
  split
  · next h => rw [h]
  · next h =>
    rw [h]
    exact settle_nextId _ _

theorem runLine_nextId {fuel : Nat} (s : Session) (source : String) :
    (s.runLine fuel source).session.nextId = (s.accept source).1.nextId := by
  unfold Session.runLine
  split
  · next h => rw [h]
  · next h =>
    rw [h]
    exact runStatements_nextId _ _

/-- The numbers of references only ever grow. -/
theorem nextId_le_feed {fuel : Nat} (s : Session) (e : Entry) : s.nextId ≤ (s.feed fuel e).session.nextId := by
  have haccept : ∀ source, s.nextId ≤ (s.accept source).1.nextId := by
    intro source
    rw [accept_nextId]
    exact (Syntax.parse_ends _ _).1
  cases e with
  | file source =>
    show _ ≤ (s.runFile fuel source).session.nextId
    rw [runFile_nextId]
    exact haccept source
  | line source =>
    show _ ≤ (s.runLine fuel source).session.nextId
    rw [runLine_nextId]
    exact haccept source
  | outside => exact Nat.le_refl _

theorem nextId_le_after {fuel : Nat} (s : Session) (entries : List Entry) :
    s.nextId ≤ (s.after fuel entries).nextId := by
  induction entries generalizing s with
  | nil => exact Nat.le_refl _
  | cons e rest ih => exact Nat.le_trans (nextId_le_feed s e) (ih _)

/-- **A step that runs a source.** -/
theorem feed_source_like (fuel : Nat) (hone : (Likeness.plain ids shift).OneToOne)
    (hs : SessionLike (.plain ids shift) δ s s') {e e' : Entry} (he : EntryLike shift e e')
    (hsource : e.source?.isSome = true)
    (hids : ∀ i, s.nextId ≤ i → i < (s.feed fuel e).session.nextId → ids i (i + δ)) :
    StepLike (.plain ids shift) δ (s.feed fuel e) (s'.feed fuel e') := by
  cases he with
  | @file source source' h =>
    have hids' : ∀ i, s.nextId ≤ i → i < (s.accept source).1.nextId → ids i (i + δ) :=
      fun i hle hlt => hids i hle (Nat.lt_of_lt_of_eq hlt (runFile_nextId s source).symm)
    obtain ⟨hs₁, hp⟩ := accept_like hone hs h hids'
    show StepLike _ δ (s.runFile fuel source) (s'.runFile fuel source')
    unfold Session.runFile
    generalize s.accept source = o, s'.accept source' = o' at hs₁ hp ⊢
    obtain ⟨s₁, program⟩ := o
    obtain ⟨s₁', program'⟩ := o'
    cases hp with
    | none => exact ⟨hs₁, .none⟩
    | some hss => exact runProgram_like fuel hs₁ (hss _ same_keys)
  | @line source source' h =>
    have hids' : ∀ i, s.nextId ≤ i → i < (s.accept source).1.nextId → ids i (i + δ) :=
      fun i hle hlt => hids i hle (Nat.lt_of_lt_of_eq hlt (runLine_nextId s source).symm)
    obtain ⟨hs₁, hp⟩ := accept_like hone hs h hids'
    show StepLike _ δ (s.runLine fuel source) (s'.runLine fuel source')
    unfold Session.runLine
    generalize s.accept source = o, s'.accept source' = o' at hs₁ hp ⊢
    obtain ⟨s₁, program⟩ := o
    obtain ⟨s₁', program'⟩ := o'
    cases hp with
    | none => exact ⟨hs₁, .none⟩
    | some hss => exact runStatements_like fuel hs₁ (hss _ same_keys)
  | outside => cases hsource

/-- **A step of any kind.** -/
theorem feed_like (fuel : Nat) (hone : (Likeness.plain ids shift).OneToOne)
    (hs : SessionLike (.plain ids shift) δ s s') {e e' : Entry} (he : EntryLike shift e e')
    (hids : ∀ i, s.nextId ≤ i → i < (s.feed fuel e).session.nextId → ids i (i + δ)) :
    SessionLike (.plain ids shift) δ (s.feed fuel e).session (s'.feed fuel e').session := by
  cases he with
  | file h =>
    exact (feed_source_like fuel hone hs (.file h) rfl hids).session.toSessionLike
  | line h =>
    exact (feed_source_like fuel hone hs (.line h) rfl hids).session.toSessionLike
  | outside =>
    obtain ⟨κs, hm⟩ := hs.machine
    exact ⟨⟨κs, hm.outside _ _ _ _⟩, hs.nextId⟩

/-! ## 5. Whole sessions -/

theorem after_like (fuel : Nat) (hone : (Likeness.plain ids shift).OneToOne)
    (hs : SessionLike (.plain ids shift) δ s s') {entries entries' : List Entry}
    (he : List.Forall₂ (EntryLike shift) entries entries')
    (hids : ∀ i, s.nextId ≤ i → i < (s.after fuel entries).nextId → ids i (i + δ)) :
    SessionLike (.plain ids shift) δ (s.after fuel entries) (s'.after fuel entries') := by
  induction he generalizing s s' with
  | nil => exact hs
  | @cons e _ rest _ h _ ih =>
    have hfirst := feed_like fuel hone hs h fun i hle hlt =>
      hids i hle (Nat.lt_of_lt_of_le hlt (nextId_le_after _ rest))
    exact ih hfirst fun i hle hlt => hids i (Nat.le_trans (nextId_le_feed s e) hle) hlt

/-- The references that have been given out below `k`. -/
def given (k i i' : Nat) : Prop := i' = i ∧ i < k

theorem given_oneToOne (k : Nat) (shift : Shift) : (Likeness.plain (given k) shift).OneToOne := by
  refine Likeness.plain_oneToOne fun {i i' j j'} hi hj => ?_
  rw [hi.1, hj.1]

/-- A session in which nothing has run yet is like itself. -/
theorem start_self (sink : Sink) (input : Input) (now : Instant) (clock : Clock) :
    SessionLike (.plain ids shift) 0 (.start sink input now clock) (.start sink input now clock) := by
  refine ⟨⟨[.same], ?_⟩, rfl⟩
  exact {
    count := rfl
    count' := rfl
    frames := by
      intro f r hf
      cases f with
      | succ f => cases hf
      | zero =>
        cases hf
        show BindingsLike _ .same nativeBindings nativeBindings
        unfold nativeBindings BindingsLike
        rw [List.forall₂_map_left_iff, List.forall₂_map_right_iff]
        exact List.forall₂_same.mpr fun _ _ => ⟨rfl, .native⟩
    objects := rfl
    fields := fun _ => .nil
    nextIdentity := rfl
    sink := rfl
    input := rfl
    now := rfl
    clock := rfl
    global := rfl
    refs := fun hr => TablesLike.refs (fun _ _ _ _ => rfl) hr }

/-- **A session is like itself**, with the references that it has given out so far. -/
theorem after_self (shift : Shift) (fuel : Nat) (sink : Sink) (input : Input) (now : Instant)
    (clock : Clock) (entries : List Entry) :
    let s := (Session.start sink input now clock).after fuel entries
    SessionLike (.plain (given s.nextId) shift) 0 s s := by
  intro s
  exact after_like fuel (given_oneToOne _ shift) (start_self sink input now clock)
    (List.forall₂_same.mpr fun e _ => .refl shift e) fun i _ hlt => ⟨rfl, hlt⟩

end FrontEnd

end Lox
