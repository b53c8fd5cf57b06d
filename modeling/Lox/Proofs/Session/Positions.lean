import Lox.Proofs.Likeness.Sessions
import Lox.Proofs.Machine.Raising
import Lox.Proofs.Session.Safety
import Lox.Proofs.Token.Tiling

/-!
# Where reports point to

A report of a step stands at a place of a source: that of the step, or for an error of the running
program that of an earlier one whose code was run. Only the report of a value that could not be shown has
no place.

* `FoundIn source r`: the report `r` is about the text of a source, or about a token of it.
* `stepVisits`: the visits of one step. `this_found`: **no lookup of `this` fails** where no source names
  it, so that no error is about no source.
* `RaisedFrom`: the node that raised an error in a step, and the source that the node was read from.
* `reports_point_into_sources`: every report of a step is one of these (`ReportOfStep`).
-/

namespace Lox

/-! ## 1. The text of a source -/

/-- The tokens of a source. -/
def sourceTokens (source : String) : List Token :=
  Token.tokensOf (Token.scan (Text.Utf8.encode source))

/-- **A report is about a source**: about a place in its text, or about one of its tokens. -/
inductive FoundIn (source : String) : Report → Prop where
  | lexical {message pos n} (hpos : 0 < n) (hn : n ≤ (Text.Utf8.encode source).length)
      (h : Token.StandsAt (Text.Utf8.encode source) n pos) : FoundIn source (.lexical message pos)
  | parse {e : SyntaxError} (h : e.token ∈ sourceTokens source) : FoundIn source (.ofSyntax e)
  | static {c : StaticComplaint × Token} (h : c.2 ∈ sourceTokens source) :
      FoundIn source (.ofScope c)

/-- The place of a report, if it has one. -/
def Report.pos? : Report → Option Position
  | .lexical _ pos | .parse _ _ pos | .static _ _ pos => some pos
  | .runtime e => some e.pos
  | .io _ => none

namespace Token

/-- The items of a source in front of its end stand at spans of it. -/
theorem stands_of_mem_items {source : List UInt8} {item : Item}
    (h : item ∈ itemsOf start (pieces source)) :
    ∃ s : Span, s.first < s.behind ∧ s.behind ≤ source.length ∧ item.Stands source s := by
  have htiling : Tiling source 0 (pieces source) := tiling_pieces (Nat.zero_le _) rfl
  have hstand : List.Forall₂ (Item.Stands source) (spansFrom 0 (pieces source))
      (itemsOf start (pieces source)) := htiling.items_stand
  obtain ⟨i, hi, rfl⟩ := List.mem_iff_getElem.mp h
  have hlt : i < (spansFrom 0 (pieces source)).length := hstand.length_eq ▸ hi
  have hbounds := htiling.bounds _ (List.getElem_mem hlt)
  exact ⟨_, hbounds.2.1, hbounds.2.2, hstand.get hlt hi⟩

/-- **A token of a source stands in it.** -/
theorem stands_of_mem_tokens {source : List UInt8} {t : Token} (h : t ∈ tokensOf (scan source)) :
    ∃ n ≤ source.length, StandsAt source n t.pos := by
  rw [tokensOf_scan] at h
  rcases List.mem_append.mp h with h | h
  · obtain ⟨item, hitem, ht⟩ := List.mem_filterMap.mp h
    obtain ⟨s, -, hle, hstands⟩ := stands_of_mem_items hitem
    cases item with
    | error e => cases ht
    | ok u =>
      cases ht
      exact ⟨s.behind, hle, hstands.2.2⟩
  · obtain rfl := List.mem_singleton.mp h
    have hend := standsAt_after (Nat.le_refl source.length)
    rw [List.take_length] at hend
    exact ⟨source.length, Nat.le_refl _, hend⟩

/-- A fault of a source lies within it. -/
theorem stands_of_mem_errors {source : List UInt8} {e : LexicalError}
    (h : e ∈ errorsOf (scan source)) : ∃ n, 0 < n ∧ n ≤ source.length ∧ StandsAt source n e.pos := by
  rw [errorsOf_scan] at h
  obtain ⟨item, hitem, he⟩ := List.mem_filterMap.mp h
  obtain ⟨s, hlt, hle, hstands⟩ := stands_of_mem_items hitem
  cases item with
  | ok t => cases he
  | error e' =>
    cases he
    exact ⟨s.behind, Nat.zero_lt_of_lt hlt, hle, hstands⟩

theorem StandsAt.one_le {source : List UInt8} {n : Nat} {p : Position} (h : StandsAt source n p) :
    1 ≤ p.line := by
  rw [h.line]
  exact Nat.le_add_right 1 _

end Token

theorem sourceTokens_line {source : String} {t : Token} (h : t ∈ sourceTokens source) :
    1 ≤ t.pos.line := by
  obtain ⟨n, -, hstands⟩ := Token.stands_of_mem_tokens h
  exact hstands.one_le

theorem FoundIn.line {source : String} {r : Report} (h : FoundIn source r) :
    ∀ p ∈ r.pos?, 1 ≤ p.line := by
  cases h with
  | lexical _ _ h =>
    intro p hp
    cases hp
    exact h.one_le
  | parse h | static h =>
    intro p hp
    cases hp
    exact sourceTokens_line h

/-- The statements of a source are drawn from its tokens, and so are the complaints about it. -/
theorem source_drawn (source : String) (k : Nat) :
    (∀ s ∈ (Syntax.parse (sourceTokens source) k).statements, s.Drawn (sourceTokens source)) ∧
      ∀ e ∈ (Syntax.parse (sourceTokens source) k).errors, e.token ∈ sourceTokens source :=
  Syntax.parse_drawn k (scan_ends _)

/-- **What the front end reports** is about the source. -/
theorem accept_found (s : Session) (source : String) :
    ∀ r ∈ (s.accept source).1.diagnostics.reports, FoundIn source r := by
  obtain ⟨hstatements, herrors⟩ := source_drawn source s.nextId
  have hscan : ∀ r ∈ (Reading.ofBytes (Text.Utf8.encode source) s.nextId).reports, FoundIn source r := by
    refine List.forall_mem_append.mpr ⟨fun r hr => ?_, fun r hr => ?_⟩
    · obtain ⟨e, he, rfl⟩ := List.mem_map.mp hr
      obtain ⟨n, hpos, hn, hstands⟩ := Token.stands_of_mem_errors he
      exact .lexical hpos hn hstands
    · obtain ⟨e, he, rfl⟩ := List.mem_map.mp hr
      exact .parse (herrors e he)
  have hstatic : ∀ r ∈ (complaintsOf (resolve (Reading.ofBytes (Text.Utf8.encode source)
      s.nextId).statements)).map Report.ofScope, FoundIn source r := by
    intro r hr
    obtain ⟨c, hc, rfl⟩ := List.mem_map.mp hr
    exact .static (resolve_drawn hstatements c hc)
  unfold Session.accept
  dsimp only
  split
  · rw [Session.report, Diagnostics.reportAll_eq]
    exact hscan
  · split
    · rw [Session.report, Diagnostics.reportAll_eq]
      exact hstatic
    · exact fun r hr => nomatch hr

/-! ## 2. The visits of a step -/

/-- **The visits of a step**: those that it begins with, and what they lead to. -/
def stepVisits (fuel : Nat) (s : Session) (entry : Entry) : History :=
  fun v => ∃ c m, Begins fuel s entry c m ∧ Leads ⟨fuel, c, m⟩ v

section Visits

variable {fuel : Nat} {s : Session} {before : List Entry} {entry : Entry} {v : Visit}

theorem stepVisits_closed (fuel : Nat) (s : Session) (entry : Entry) :
    (stepVisits fuel s entry).Closed := fun _ _ _ _ _ h hm => by
  obtain ⟨c, m, hb, hl⟩ := h
  exact ⟨c, m, hb, .makes hl hm⟩

/-- The visits of a step are visits of its session. -/
theorem stepVisits_visited (h : stepVisits fuel (s.after fuel before) entry v) :
    Visited fuel s (before ++ [entry]) v := by
  obtain ⟨c, m, hb, hl⟩ := h
  induction hl with
  | refl => exact .begins rfl hb
  | makes _ hm ih => exact .makes ih hm

/-- The code of an initializer stands directly in a class. -/
theorem headsClass_of_initializer {program : List Stmt} {code : Code} {p : Place}
    (h : Occurs program (.code code) p) (hp : p.ctx.function = .initializer) :
    ∃ decl, HeadsClass decl p.layers := by
  cases h with
  | inside _ hi =>
    cases hi with
    | lambda | function => cases hp
    | @method _ _ superclass =>
      cases superclass with
      | none => exact ⟨_, _, _, rfl⟩
      | some ref => exact ⟨_, _, _, rfl⟩

/-- **No lookup of `this` fails** where no source names it: what is found is an instance. -/
theorem this_found {entries : List Entry} (hs : Sound (worldOf fuel s entries) s)
    (hv : Visited fuel s entries v) {env : Env} {d : Nat} {m : Machine} (h : SeeksThis v env d m) :
    ∃ o c, (readAt env d hiddenThis).run m = (.ok (.object o c), m) := by
  have hclosed := worldOf_closed fuel s entries
  obtain ⟨k, hgood, hok⟩ := visited_ok hs hv
  cases h with
  | @initializer n f args m _ m₁ _ m₂ hf hframe hbody =>
    -- the frame of the instance is kept while the body runs
    have hsafe : SafeAt (worldOf fuel s entries) k n := safeAt hclosed n
    obtain ⟨hafter, hmade⟩ := Makes.ok hsafe hclosed rfl hv hgood hok (.body hframe)
    have hrun : Safe _ k m₁ (executeAll n f.code.body _) _ :=
      hsafe _ m₁ (hv.makes (.body hframe)) hafter.good (hmade.made (.body hframe))
    have hlater := (hafter.trans (hrun.of_run hbody).1).later
    obtain ⟨_, program, p, -, hp, hinit, hthrough⟩ := FunctionOk.later hok.1 hlater
    obtain ⟨decl, hdecl⟩ := headsClass_of_initializer hp.occurs (hinit hf)
    obtain ⟨_, g, o, c, frame, -, -, -, henv, hthis⟩ := hthrough decl hdecl
    refine ⟨o, c, ?_⟩
    rw [readAt_run (show f.env[0]? = some frame by rw [henv]; rfl), readIn,
      show hiddenThis.lexeme = thisName from rfl, hthis]
  | @super n ref name _ m₀ _ c _ hd hclass =>
    obtain ⟨program, p, hp⟩ := hok
    obtain ⟨d', f, g, hd', hf, hg, ⟨o, c', hthis⟩, -⟩ := hp.super_frames
    obtain rfl : d = d' := Nat.succ.inj (Option.some.inj (hd.symm.trans hd'))
    rw [readAt_run hg] at hclass
    obtain rfl : m₀ = m := congrArg Prod.snd hclass
    refine ⟨o, c', ?_⟩
    rw [readAt_run hf, readIn, show hiddenThis.lexeme = thisName from rfl, hthis]

end Visits

/-! ## 3. Errors of the running program -/

section Runs

variable {fuel : Nat} {m : Machine} {s : Session} {statement : Stmt} {P : RuntimeError → Prop}

/-- The errors of a program are those of its statements. -/
theorem runAll_raising {ss : List Stmt} (h : ∀ before statement rest m', ss = before ++ statement :: rest →
      (runAll fuel before).run m = (.ok (), m') →
        Raising P m' (execute fuel statement Store.globals)) : Raising P m (runAll fuel ss) := by
  induction ss generalizing m with
  | nil => exact .pure ()
  | cons statement rest ih =>
    refine Raising.bind (h [] statement rest m rfl rfl) fun signal m₁ hrun => ih ?_
    intro before other more m' heq hbefore
    refine h (statement :: before) other more m' (by rw [heq]; rfl) ?_
    exact (run_bind_ok hrun).trans hbefore

theorem perform_raising {H : History} (h : CallRaises H fuel m (.ofTop statement)) :
    Raising (Raised H) m (perform fuel statement) := by
  have hmap {α β : Type} {x : Run α} (f : α → β) (hx : Raising (Raised H) m x) :
      Raising (Raised H) m (f <$> x) := by
    rw [map_eq_pure_bind]
    exact hx.bind fun _ _ _ => .pure _
  cases statement with
  | expr e => exact hmap Yield.value h
  | _ => exact hmap Yield.signal h

/-- The report of an error of which `P` holds, or of a value that could not be shown. -/
def ReportsRun (P : RuntimeError → Prop) (r : Report) : Prop :=
  (∃ e, r = .runtime e ∧ P e) ∨ ∃ c : ConsoleError, r = .io c.message

theorem settles_reports {outcome : Option Report} {m' : Machine}
    (hp : Raising P m (perform fuel statement)) (h : Settles fuel m statement m' outcome) :
    ∀ r ∈ outcome, ReportsRun P r := by
  cases h with
  | shown | finished => exact fun r hr => nomatch hr
  | @unshown _ _ c =>
    intro r hr
    cases hr
    exact .inr ⟨c, rfl⟩
  | @failed _ e _ hrun =>
    intro r hr
    cases hr
    exact .inl ⟨e, rfl, hp e _ hrun⟩

/-- **The reports of a line** are those of the statements that it runs. -/
theorem runStatements_reporting {ss : List Stmt} (hs : ∀ r ∈ s.diagnostics.reports, ReportsRun P r)
    (h : ∀ before statement rest, ss = before ++ statement :: rest →
      (s.runStatements fuel before).halt = none →
        Raising P (s.runStatements fuel before).session.machine (perform fuel statement)) :
    ∀ r ∈ (s.runStatements fuel ss).session.diagnostics.reports, ReportsRun P r := by
  induction ss generalizing s with
  | nil => exact hs
  | cons statement rest ih =>
    have hfirst : ∀ r ∈ (s.runStatement fuel statement).session.diagnostics.reports,
        ReportsRun P r := by
      rcases runStatement_settles fuel s statement with
        ⟨outcome, hsettles, -, hd⟩ | ⟨_, _, -, -, -, hd⟩
      · rw [hd, Diagnostics.reportAll_eq]
        refine List.forall_mem_append.mpr ⟨hs, fun r hr => ?_⟩
        exact settles_reports (h [] statement rest rfl rfl) hsettles r (Option.mem_toList.mp hr)
      · rw [hd]
        exact hs
    cases hhalt : (s.runStatement fuel statement).halt with
    | some halt =>
      rw [runStatements_halted hhalt]
      exact hfirst
    | none =>
      have hstep := runStatements_next hhalt
      rw [hstep]
      refine ih hfirst fun before other more heq hnone => ?_
      have hbefore := h (statement :: before) other more (by rw [heq]; rfl)
      rw [hstep] at hbefore
      exact hbefore hnone

/-- The reports of a file are those of its statements. -/
theorem settle_reporting {α : Type} {x : Run α} (hs : s.diagnostics.reports = [])
    (hx : Raising P s.machine x) :
    ∀ r ∈ (s.settle (x.run s.machine)).session.diagnostics.reports, ∃ e, r = .runtime e ∧ P e := by
  have hnone : ∀ r ∈ s.diagnostics.reports, ∃ e, r = .runtime e ∧ P e := by
    rw [hs]
    exact fun r hr => nomatch hr
  rcases hrun : x.run s.machine with ⟨(e | _ | _) | _, m'⟩
  · show ∀ r ∈ (s.diagnostics.reportAll [.runtime e]).reports, ∃ e', r = .runtime e' ∧ P e'
    rw [Diagnostics.reportAll_eq]
    exact List.forall_mem_append.mpr
      ⟨hnone, List.forall_mem_singleton.mpr ⟨e, rfl, hx e m' hrun⟩⟩
  · exact hnone
  · exact hnone
  · exact hnone

end Runs

/-! ## 4. Steps -/

/-- **A node was read from a source** of a session, in a program that was let through. -/
inductive ReadFrom (fuel : Nat) (s : Session) (entries : List Entry) (source : String) (node : Node) :
    Prop where
  | intro {before entry later s' program p} (heq : entries = before ++ entry :: later)
      (hsource : entry.source? = some source)
      (haccept : (s.after fuel before).accept source = (s', some program))
      (hoccurs : Occurs program node p) : ReadFrom fuel s entries source node

/-- **An error of the running program**, raised in a step: by a node that the step ran, about a token of
    the node. The node was read from a source of this or an earlier step, and the error stands where a
    token of that source does: the token itself, or the one that assigns and has the operator inside. -/
inductive RaisedFrom (fuel : Nat) (s : Session) (before : List Entry) (entry : Entry) :
    RuntimeError → Prop where
  | intro {e v node t source u} (hv : stepVisits fuel (s.after fuel before) entry v)
      (hraises : Raises v e node t) (hread : ReadFrom fuel s (before ++ [entry]) source node)
      (hu : u ∈ sourceTokens source) (ht : t = u ∨ Syntax.innerOperator? u = some t)
      (hpos : e.pos = u.pos) : RaisedFrom fuel s before entry e

section Steps

variable {fuel : Nat} {s : Session} {before : List Entry} {entry : Entry}

/-- The operator inside a token that assigns stands where the token does. -/
theorem innerOperator?_pos {u t : Token} (h : Syntax.innerOperator? u = some t) : t.pos = u.pos := by
  unfold Syntax.innerOperator? at h
  split at h <;> cases h <;> rfl

/-- A node that a visit of a session runs was read from a source, and so were its tokens. -/
theorem visited_read {entries : List Entry} (hs : Sound (worldOf fuel s entries) s) {v : Visit}
    (hv : Visited fuel s entries v) {node : Node} (hnode : v.call.node? = some node) :
    ∃ source, ReadFrom fuel s entries source node ∧ node.Drawn (sourceTokens source) := by
  obtain ⟨k, -, hok⟩ := visited_ok hs hv
  have hplaced : ∃ env, Ready (worldOf fuel s entries) k v.machine v node env := by
    cases hcall : v.call with
    | evaluate | execute =>
      rw [hcall] at hnode hok
      cases hnode
      exact ⟨_, hok⟩
    | evaluateAll | apply | invoke | executeAll | turns =>
      rw [hcall] at hnode
      cases hnode
  obtain ⟨_, program, p, hp⟩ := hplaced
  obtain ⟨before, entry, later, source, s', heq, hsource, haccept⟩ := hp.accepted
  obtain ⟨-, rfl⟩ := parsed_of_accept haccept
  exact ⟨source, .intro heq hsource haccept hp.occurs, hp.occurs.drawn (source_drawn source _).1⟩

theorem Raised.from (hs : Sound (worldOf fuel s (before ++ [entry])) s) {e : RuntimeError}
    (h : Raised (stepVisits fuel (s.after fuel before) entry) e) : RaisedFrom fuel s before entry e := by
  obtain ⟨v, node, t, hv, hraises⟩ := h
  obtain ⟨source, hread, hdrawn⟩ := visited_read hs (stepVisits_visited hv) hraises.runs
  rcases hdrawn.blamed hraises.blamed with ht | ⟨u, hu, ht⟩
  · exact .intro hv hraises hread ht (.inl rfl) hraises.pos
  · exact .intro hv hraises hread hu (.inr ht) (hraises.pos.trans (innerOperator?_pos ht))

theorem RaisedFrom.line {e : RuntimeError} (h : RaisedFrom fuel s before entry e) : 1 ≤ e.pos.line := by
  cases h with
  | intro hv hraises hread hu ht hpos =>
    rw [hpos]
    exact sourceTokens_line hu

/-- **The report of a step**: about its source, of an error of the running program, or that the value of
    a line could not be shown. -/
inductive ReportOfStep (fuel : Nat) (s : Session) (before : List Entry) (entry : Entry) : Report → Prop where
  | found {source r} (hsource : entry.source? = some source) (h : FoundIn source r) :
      ReportOfStep fuel s before entry r
  | raised {e} (h : RaisedFrom fuel s before entry e) : ReportOfStep fuel s before entry (.runtime e)
  | unshown {source} {c : ConsoleError} (h : entry = .line source) :
      ReportOfStep fuel s before entry (.io c.message)

theorem ReportOfStep.line {r : Report} (h : ReportOfStep fuel s before entry r) :
    ∀ p ∈ r.pos?, 1 ≤ p.line := by
  cases h with
  | found _ h => exact h.line
  | raised h =>
    intro p hp
    cases hp
    exact h.line
  | unshown => exact fun p hp => nomatch hp

/-- **The reports of a step**, in a session that is sound. -/
theorem feed_reports {source : String} (hs : Sound (worldOf fuel s (before ++ [entry])) s)
    (hsource : entry.source? = some source) :
    ∀ r ∈ ((s.after fuel before).feed fuel entry).session.diagnostics.reports,
      ReportOfStep fuel s before entry r := by
  have hthis : FindsThis (stepVisits fuel (s.after fuel before) entry) := fun v env d m hv h => by
    obtain ⟨o, c, hrun⟩ := this_found hs (stepVisits_visited hv) h
    exact ⟨_, hrun⟩
  have hbegins {c : Call} {m : Machine} (hb : Begins fuel (s.after fuel before) entry c m) :
      CallRaises (stepVisits fuel (s.after fuel before) entry) fuel m c :=
    calls_raise (stepVisits_closed _ _ _) hthis fuel c m ⟨c, m, hb, .refl⟩
  have hfrom {α : Type} {x : Run α} {m : Machine}
      (hx : Raising (Raised (stepVisits fuel (s.after fuel before) entry)) m x) :
      Raising (RaisedFrom fuel s before entry) m x := hx.mono fun _ he => he.from hs
  cases entry with
  | outside => cases hsource
  | file source' =>
    obtain rfl : source' = source := Option.some.inj hsource
    have hfound := accept_found (s.after fuel before) source'
    show ∀ r ∈ ((s.after fuel before).runFile fuel source').session.diagnostics.reports, _
    rw [Session.runFile]
    rcases accept_phases (s.after fuel before) source' with ⟨s', haccept, -, -⟩ | ⟨k, haccept⟩
    · rw [haccept] at hfound ⊢
      exact fun r hr => .found hsource (hfound r hr)
    · simp only [haccept]
      intro r hr
      have hprogram : Raising (RaisedFrom fuel s before (.file source'))
          ((s.after fuel before).loaded source')
          (runAll fuel ((s.after fuel before).programOf source')) := by
        refine runAll_raising fun done statement rest m' heq hdone => ?_
        rw [heq] at haccept
        exact hfrom (hbegins (.file haccept hdone))
      obtain ⟨e, rfl, he⟩ := settle_reporting rfl hprogram r hr
      exact .raised he
  | line source' =>
    obtain rfl : source' = source := Option.some.inj hsource
    have hfound := accept_found (s.after fuel before) source'
    show ∀ r ∈ ((s.after fuel before).runLine fuel source').session.diagnostics.reports, _
    rw [Session.runLine]
    rcases accept_phases (s.after fuel before) source' with ⟨s', haccept, -, -⟩ | ⟨k, haccept⟩
    · rw [haccept] at hfound ⊢
      exact fun r hr => .found hsource (hfound r hr)
    · simp only [haccept]
      intro r hr
      have hstatement : ReportsRun (RaisedFrom fuel s before (.line source')) r := by
        refine runStatements_reporting (fun _ h => absurd h List.not_mem_nil) ?_ r hr
        intro done statement rest heq hnone
        rw [heq] at haccept
        exact hfrom (perform_raising (hbegins (.line haccept hnone)))
      rcases hstatement with ⟨e, rfl, he⟩ | ⟨c, rfl⟩
      · exact .raised he
      · exact .unshown rfl

end Steps

/-- **Every report of a step stands in a source**, in every session: that of the text and of scoping in
    the source of the step, an error of the running program in the source of the node that raised it. Only
    the report that the value of a line could not be shown stands nowhere. So no report is at line zero, and
    whatever `this` is looked up where no source names it, an instance is found. -/
theorem reports_point_into_sources (fuel : Nat) (sink : Sink) (input : Input) (now : Instant)
    (clock : Clock) (before : List Entry) (entry : Entry) (source : String) (h : entry.source? = some source) :
    let s := Session.start sink input now clock
    let reports := ((s.after fuel before).feed fuel entry).session.diagnostics.reports
    (∀ r ∈ reports, ReportOfStep fuel s before entry r) ∧ (∀ r ∈ reports, ∀ p ∈ r.pos?, 1 ≤ p.line) ∧
      ∀ v env d m, stepVisits fuel (s.after fuel before) entry v → SeeksThis v env d m →
        ∃ o c, (readAt env d hiddenThis).run m = (.ok (.object o c), m) := by
  intro s reports
  have hs : Sound (worldOf fuel s (before ++ [entry])) s := start_sound _ sink input now clock
  have hreported : ∀ r ∈ reports, ReportOfStep fuel s before entry r := feed_reports hs h
  exact ⟨hreported, fun r hr => (hreported r hr).line,
    fun v env d m hv hseeks => this_found hs (stepVisits_visited hv) hseeks⟩

/-- A function of an earlier line fails at its `+=`, and the report stands there. -/
theorem reports_point_into_sources_earlier :
    let s := Session.start .unlimited (.ofBytes []) 0
    let before := [Entry.line "fun f(a) \x7b a += a; \x7d"]
    let e : RuntimeError := .type "Operands must be two numbers or strings." ⟨1, 15⟩
    ((s.after 9 before).feed 9 (.line "f(nil);")).session.diagnostics.reports = [.runtime e] ∧
      RaisedFrom 9 s before (.line "f(nil);") e := by
  intro s before e
  have hreports : ((s.after 9 before).feed 9 (.line "f(nil);")).session.diagnostics.reports
      = [.runtime e] := by cbv
  have hall := reports_point_into_sources 9 .unlimited (.ofBytes []) 0 .steady before (.line "f(nil);") "f(nil);" rfl
  have hreported := hall.1 (.runtime e) (hreports ▸ List.mem_singleton_self _)
  refine ⟨hreports, ?_⟩
  cases hreported with
  | found _ h => cases h
  | raised h => exact h

/-- A value that a full sink does not take: the report has no place. -/
theorem unshown_value_stands_nowhere :
    let s := Session.start ⟨#[], some 0, false, 0, fun _ => none⟩ (.ofBytes []) 0
    let reports := (s.feed 9 (.line "nil;")).session.diagnostics.reports
    reports = [.io "output full"] ∧ ¬ ∀ r ∈ reports, ∃ p, r.pos? = some p := by
  intro s reports
  have hreports : (s.feed 9 (.line "nil;")).session.diagnostics.reports = [.io "output full"] := by cbv
  refine ⟨hreports, fun h => ?_⟩
  obtain ⟨p, hp⟩ := h _ (hreports ▸ List.mem_singleton_self _)
  cases hp

end Lox
