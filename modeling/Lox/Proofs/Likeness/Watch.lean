import Lox.Proofs.Likeness.Sessions

/-!
# What is seen of a session

* `Passes`: a source that the front end lets through, which it does in any session or in none.
* `Seen`: what is seen of a step: its reports and flags, the output and the input behind it, and the
  global names.
* `Session.watch`: **what is seen of a session**, with the reports taken out after each step. Of
  what happens outside nothing is seen.
* `watch_like`: of sessions that are alike, like things are seen.
-/

namespace Lox

/-! ## 1. Sources that pass -/

/-- **A source that the front end lets through**: its scan, its parse and its resolution report
    nothing. -/
def Passes (source : String) : Prop :=
  (Reading.ofBytes (Text.Utf8.encode source) 0).reports = [] ∧
    complaintsOf (resolve (Reading.ofBytes (Text.Utf8.encode source) 0).statements) = []

instance (source : String) : Decidable (Passes source) := inferInstanceAs (Decidable (_ ∧ _))

theorem forall₂_eq_nil_iff {α β : Type} {R : α → β → Prop} {l : List α} {l' : List β}
    (h : List.Forall₂ R l l') : l = [] ↔ l' = [] := by
  cases h <;> simp

/-- A source passes if one of like tokens does, whichever number its first reference gets. -/
theorem passes_iff_reading {shift : Shift} {source source' : String}
    (h : SourceLike shift source source') (k : Nat) :
    Passes source ↔ (Reading.ofBytes (Text.Utf8.encode source') k).reports = [] ∧
      complaintsOf (resolve (Reading.ofBytes (Text.Utf8.encode source') k).statements) = [] := by
  have hread : ReadingLike (fun i i' => i' = i + k) shift k
      (Reading.ofBytes (Text.Utf8.encode source) 0)
      (Reading.ofBytes (Text.Utf8.encode source') (0 + k)) := reading_like h fun _ _ _ => rfl
  rw [Nat.zero_add] at hread
  have hfound := resolve_like (hread.statements [] fun _ hr => nomatch hr) (DepthsAgree.plain _)
  have hcomplaints := forall₂_eq_nil_iff (complaints_like hfound)
  rw [List.map_eq_nil_iff, List.map_eq_nil_iff] at hcomplaints
  exact and_congr (forall₂_eq_nil_iff hread.reports) hcomplaints

theorem SourceLike.passes_iff {shift : Shift} {source source' : String}
    (h : SourceLike shift source source') : Passes source ↔ Passes source' :=
  passes_iff_reading h 0

/-- **A session lets a source through** if and only if it passes. -/
theorem accept_isSome_iff (s : Session) (source : String) :
    (s.accept source).2.isSome = true ↔ Passes source := by
  rw [passes_iff_reading (.refl .none source) s.nextId]
  unfold Session.accept
  dsimp only
  rw [← List.map_eq_nil_iff (l := complaintsOf _) (f := Report.ofScope)]
  split
  · next h => exact ⟨(nomatch ·), fun hp => absurd hp.1 h⟩
  · next h =>
    split
    · next hc => exact ⟨(nomatch ·), fun hp => absurd hp.2 hc⟩
    · next hc => exact ⟨fun _ => ⟨not_not.mp h, not_not.mp hc⟩, fun _ => rfl⟩

/-! ## 2. What is seen -/

/-- What is seen of a step. -/
structure Seen where
  reports : List Report
  hasStatic : Bool
  hasRuntime : Bool
  sink : Sink
  input : Input
  names : List String
  /-- Whether there was not fuel enough. -/
  starved : Bool

/-- What is seen of a step. -/
def Step.seen (t : Step) : Seen where
  reports := t.session.diagnostics.reports
  hasStatic := t.session.diagnostics.hasStatic
  hasRuntime := t.session.diagnostics.hasRuntime
  sink := t.session.machine.sink
  input := t.session.machine.input
  names := t.session.names
  starved := t.halt = some .starved

/-- A session after some entries, with the reports taken out after each. -/
def Session.drained (fuel : Nat) (s : Session) (entries : List Entry) : Session :=
  entries.foldl (fun s e => (s.feed fuel e).session.drain.2) s

/-- **What is seen of a session**, one thing a source, with the reports taken out after each step. -/
def Session.watch (fuel : Nat) (s : Session) : List Entry → List Seen
  | [] => []
  | e :: rest =>
    let step := s.feed fuel e
    match e.source? with
    | some _ => step.seen :: watch fuel step.session.drain.2 rest
    | none => watch fuel step.session.drain.2 rest

theorem watch_append (fuel : Nat) (s : Session) (before later : List Entry) :
    s.watch fuel (before ++ later) = s.watch fuel before ++ (s.drained fuel before).watch fuel later := by
  induction before generalizing s with
  | nil => rfl
  | cons e rest ih =>
    rw [List.cons_append, Session.watch, Session.watch, ih]
    cases e.source? <;> rfl

theorem watch_source (fuel : Nat) (s : Session) {e : Entry} (h : e.source?.isSome = true) (rest : List Entry) :
    s.watch fuel (e :: rest)
      = (s.feed fuel e).seen :: (s.feed fuel e).session.drain.2.watch fuel rest := by
  obtain ⟨source, hsource⟩ := Option.isSome_iff_exists.mp h
  rw [Session.watch]
  simp only [hsource]

/-- What is reported does not matter for later steps. -/
theorem drained_eq_after (fuel : Nat) (s : Session) (d : Diagnostics) (entries : List Entry) :
    ∃ d', Session.drained fuel { s with diagnostics := d } entries
      = { s.after fuel entries with diagnostics := d' } := by
  induction entries generalizing s d with
  | nil => exact ⟨d, rfl⟩
  | cons e rest ih =>
    cases e with
    | file source => exact ih (s.runFile fuel source).session _
    | line source => exact ih (s.runLine fuel source).session _
    | outside sink input now clock =>
      exact ih { s with machine := { s.machine with sink, input, now, clock } } _

/-! ## 3. Two sessions -/

/-- An error in another place. -/
def RuntimeError.mapPos (f : Position → Position) : RuntimeError → RuntimeError
  | .type message p => .type message (f p)
  | .divisionByZero p => .divisionByZero (f p)
  | .undefinedVariable name p => .undefinedVariable name (f p)
  | .undefinedProperty name p => .undefinedProperty name (f p)
  | .arity expected got p => .arity expected got (f p)
  | .native message p => .native message (f p)

/-- A report in another place. -/
def Report.mapPos (f : Position → Position) : Report → Report
  | .lexical message p => .lexical message (f p)
  | .parse message location p => .parse message location (f p)
  | .static message lexeme p => .static message lexeme (f p)
  | .runtime e => .runtime (e.mapPos f)
  | .io text => .io text

/-- Two steps that are seen. -/
structure SeenLike (L : Likeness) (o o' : Seen) : Prop where
  reports : ReportsLike L o.reports o'.reports
  hasStatic : o'.hasStatic = o.hasStatic
  hasRuntime : o'.hasRuntime = o.hasRuntime
  sink : o'.sink = o.sink
  input : o'.input = o.input
  names : o'.names = o.names
  starved : o'.starved = o.starved

section Likeness

variable {L : Likeness} {δ : Nat} {s s' : Session} {ids : Nat → Nat → Prop} {shift : Shift}

theorem StepLike.seen {t t' : Step} (h : StepLike L δ t t') : SeenLike L t.seen t'.seen := by
  obtain ⟨κs, hm⟩ := h.session.machine
  have hhalt := h.halt
  refine ⟨h.session.diagnostics.reports, h.session.diagnostics.hasStatic,
    h.session.diagnostics.hasRuntime, hm.sink, hm.input, ?_, ?_⟩
  · show t'.session.names = t.session.names
    unfold Session.names
    rw [hm.names]
  · show decide (t'.halt = some .starved) = decide (t.halt = some .starved)
    generalize t.halt = halt, t'.halt = halt' at hhalt ⊢
    cases hhalt with
    | none => rfl
    | some h => cases h <;> rfl

theorem SessionLike.drain (h : SessionLike L δ s s') : SessionLike L δ s.drain.2 s'.drain.2 :=
  ⟨h.machine, h.nextId⟩

/-- **Of sessions that are alike, like things are seen**, if all later references are alike. -/
theorem watch_like (fuel : Nat) (hone : (Likeness.plain ids shift).OneToOne)
    (hs : SessionLike (.plain ids shift) δ s s') {es es' : List Entry}
    (he : List.Forall₂ (EntryLike shift) es es') (hids : ∀ i, s.nextId ≤ i → ids i (i + δ)) :
    List.Forall₂ (SeenLike (.plain ids shift)) (s.watch fuel es) (s'.watch fuel es') := by
  induction he generalizing s s' with
  | nil => exact .nil
  | @cons e e' rest rest' h _ ih =>
    have hfirst := feed_like fuel hone hs h fun i hle _ => hids i hle
    have hrest := ih hfirst.drain fun i hle => hids i (Nat.le_trans (nextId_le_feed s e) hle)
    have hstep := fun hsource =>
      feed_source_like fuel hone hs h hsource fun i hle _ => hids i hle
    cases h with
    | file _ => exact .cons (hstep rfl).seen hrest
    | line _ => exact .cons (hstep rfl).seen hrest
    | outside => exact hrest

/-- **Like reports differ in their place only.** -/
theorem ReportLike.place {r r' : Report} (h : ReportLike (.plain ids shift) r r') :
    ∃ p p', shift.rel p p' ∧ r = r.mapPos (fun _ => p) ∧ r' = r.mapPos fun _ => p' := by
  cases h with
  | lexical hp => exact ⟨_, _, hp, rfl, rfl⟩
  | parse hp => exact ⟨_, _, hp, rfl, rfl⟩
  | static hp => exact ⟨_, _, hp, rfl, rfl⟩
  | io => exact ⟨Token.start, Token.start, shift.refl _, rfl, rfl⟩
  | runtime h =>
    cases h with
    | type hp => exact ⟨_, _, hp, rfl, rfl⟩
    | divisionByZero hp => exact ⟨_, _, hp, rfl, rfl⟩
    | undefinedVariable h => exact ⟨_, _, h.pos, rfl, by rw [h.lexeme]; rfl⟩
    | undefinedProperty hp => exact ⟨_, _, hp, rfl, rfl⟩
    | arity hp => exact ⟨_, _, hp, rfl, rfl⟩
    | native hp => exact ⟨_, _, hp, rfl, rfl⟩

/-- Where places do not differ, the same is seen. -/
theorem ReportLike.eq_plain {r r' : Report} (h : ReportLike (.plain ids .none) r r') : r' = r := by
  obtain ⟨p, p', hp, hr, hr'⟩ := h.place
  obtain rfl : p' = p := hp
  exact hr'.trans hr.symm

theorem SeenLike.eq_plain {o o' : Seen} (h : SeenLike (.plain ids .none) o o') : o' = o := by
  have hreports : o'.reports = o.reports := by
    have hlike := h.reports
    generalize o.reports = rs, o'.reports = rs' at hlike ⊢
    induction hlike with
    | nil => rfl
    | cons hr _ ih => exact List.cons_eq_cons.mpr ⟨hr.eq_plain, ih⟩
  obtain ⟨_, _, _, _, _, _, _⟩ := o
  obtain ⟨_, _, _, _, _, _, _⟩ := o'
  rw [Seen.mk.injEq]
  exact ⟨hreports, h.hasStatic, h.hasRuntime, h.sink, h.input, h.names, h.starved⟩

theorem watch_eq (fuel : Nat) (hone : (Likeness.plain ids .none).OneToOne)
    (hs : SessionLike (.plain ids .none) δ s s') (es : List Entry)
    (hids : ∀ i, s.nextId ≤ i → ids i (i + δ)) : s'.watch fuel es = s.watch fuel es := by
  have hlike := watch_like fuel hone hs
    (List.forall₂_same.mpr fun e (_ : e ∈ es) => EntryLike.refl .none e) hids
  generalize s.watch fuel es = os, s'.watch fuel es = os' at hlike ⊢
  induction hlike with
  | nil => rfl
  | cons ho _ ih => exact List.cons_eq_cons.mpr ⟨ho.eq_plain, ih⟩

end Likeness

end Lox
