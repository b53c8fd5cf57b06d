import Lox.Proofs.Likeness.Watch
import Lox.Proofs.Session.Safety

/-!
# A source that is refused leaves no trace

A refused source may have used up references, and scoping may have noted some of them. No later
program can tell: it gets other references, and what scoping notes about these is the same.

* `skipping k δ`: from `k` on, references are `δ` further on; the ones before stay.
* `refused_like`: a session is like what a refused source leaves of it.
* `refused_steps_leave_no_trace`: **whatever is seen of the other steps is the same** with a refused
  step among them and without.
-/

namespace Lox

/-- References below `k` stay, those from `k` on are `δ` further on. -/
def skipping (k δ i i' : Nat) : Prop := i' = i ∧ i < k ∨ k ≤ i ∧ i' = i + δ

theorem skipping_oneToOne (k δ : Nat) (shift : Shift) :
    (Likeness.plain (skipping k δ) shift).OneToOne := by
  refine Likeness.plain_oneToOne fun {i i' j j'} hi hj => ?_
  unfold skipping at hi hj
  omega

section Refusal

variable {fuel : Nat} {s : Session} {entry : Entry} {source : String}

/-- A step that is refused goes no further than the front end. -/
theorem feed_refused (hsource : entry.source? = some source) (h : ¬ Passes source) :
    s.feed fuel entry = ⟨(s.accept source).1, none⟩ := by
  have hnone : (s.accept source).2 = none :=
    Option.not_isSome_iff_eq_none.mp fun hsome => h ((accept_isSome_iff s source).mp hsome)
  cases entry with
  | outside => cases hsource
  | file =>
    cases hsource
    show s.runFile fuel source = _
    unfold Session.runFile
    split
    · next s' haccept => rw [haccept]
    · next s' program haccept =>
      rw [haccept] at hnone
      cases hnone
  | line =>
    cases hsource
    show s.runLine fuel source = _
    unfold Session.runLine
    split
    · next s' haccept => rw [haccept]
    · next s' program haccept =>
      rw [haccept] at hnone
      cases hnone

/-- Neither of two sessions has anything yet about the references that it gives out next. -/
theorem SessionLike.skip {s' : Session} {k δ : Nat}
    (h : SessionLike (.plain (given k) .none) δ s s') (hk : s.nextId = k)
    (hfresh : ∀ id : RefId, s.nextId ≤ id.index → s.machine.distances.find? id = none)
    (hfresh' : ∀ id : RefId, s'.nextId ≤ id.index → s'.machine.distances.find? id = none) :
    SessionLike (.plain (skipping k δ) .none) δ s s' := by
  obtain ⟨κs, hm⟩ := h.machine
  have htables : TablesLike (.plain (skipping k δ) .none) s.machine.distances
      s'.machine.distances := by
    intro keys r r' hr
    rcases hr.2.ids with hgiven | ⟨hle, hid⟩
    · exact (hm.refs ⟨hr.1, hgiven, hr.2.token⟩).1
    · rw [hfresh r.id (by rw [hk]; exact hle), hfresh' r'.id (by rw [h.nextId, hk, hid]; omega)]
  exact ⟨⟨κs, hm.mono (Likeness.plain_within .inl id) htables.refs⟩, h.nextId⟩

/-- **A session that can be reached is like itself.** -/
theorem Reached.self_like (h : Reached fuel s) (shift : Shift) :
    SessionLike (.plain (given s.nextId) shift) 0 s s := by
  obtain ⟨sink, input, now, clock, entries, rfl⟩ := h
  exact after_self shift fuel sink input now clock entries

/-- **A session is like what a source leaves of it**, if the source is not run. -/
theorem refused_like (h : Reached fuel s) (source : String) :
    ∃ δ, SessionLike (.plain (skipping s.nextId δ) .none) δ s (s.accept source).1 := by
  obtain ⟨d, hmachine, hkept⟩ := accept_machine s source
  obtain ⟨κs, hm⟩ := (h.self_like .none).machine
  have hle : s.nextId ≤ (s.accept source).1.nextId := by
    rw [accept_nextId]
    exact (Syntax.parse_ends _ _).1
  obtain ⟨δ, hδ⟩ := Nat.exists_eq_add_of_le hle
  have htables : TablesLike (.plain (given s.nextId) .none) s.machine.distances d := by
    intro keys r r' hr
    obtain ⟨hid, hlt⟩ := hr.2.ids
    rw [show r'.id = r.id from congrArg RefId.mk hid]
    exact hkept r.id hlt
  have hlike := hm.mono (.refl _) htables.refs
  rw [← hmachine] at hlike
  obtain ⟨w, -, hsound, -⟩ := h.sound (.file source)
  exact ⟨δ, SessionLike.skip ⟨⟨κs, hlike⟩, hδ⟩ rfl hsound.fresh (accept_sound source hsound).1.fresh⟩

/-- **A step that is refused leaves no trace.** Whatever came before it and comes behind it, all that is
    seen of the other steps is what is seen without it: what they write, report and read, and the
    global names behind them. -/
theorem refused_steps_leave_no_trace (fuel : Nat) (sink : Sink) (input : Input) (now : Instant)
    (clock : Clock) (before later : List Entry) (entry : Entry) (source : String)
    (hsource : entry.source? = some source) (h : ¬ Passes source) :
    let s := Session.start sink input now clock
    ∃ own rest, s.watch fuel (before ++ later) = s.watch fuel before ++ rest ∧
      s.watch fuel (before ++ entry :: later) = s.watch fuel before ++ own :: rest := by
  intro s
  obtain ⟨d, hd⟩ := drained_eq_after fuel s s.diagnostics before
  rw [show { s with diagnostics := s.diagnostics } = s from rfl] at hd
  obtain ⟨δ, hlike⟩ := refused_like ⟨sink, input, now, clock, before, rfl⟩ source
  have hdrained : SessionLike (.plain (skipping (s.after fuel before).nextId δ) .none) δ
      (s.drained fuel before) ((s.drained fuel before).accept source).1.drain.2 := by
    rw [hd]
    exact ⟨hlike.machine, hlike.nextId⟩
  have hrest := watch_eq fuel (skipping_oneToOne _ δ .none) hdrained later fun i hle => by
    rw [hd] at hle
    exact .inr ⟨hle, rfl⟩
  refine ⟨((s.drained fuel before).feed fuel entry).seen, _, watch_append fuel s before later, ?_⟩
  rw [watch_append, watch_source _ _ (by rw [hsource]; rfl), feed_refused hsource h]
  exact congrArg (fun rest => _ ++ _ :: rest) hrest

/-- A line that scoping refuses, for its last statement, behind a line that left a closure. -/
theorem refused_steps_leave_no_trace_return :
    let s := Session.start .unlimited (.ofBytes []) 0
    let before := [Entry.line "var a = 1; fun f() \x7b return a; \x7d"]
    let later := [Entry.line "f();"]
    ¬ Passes "\x7b var b = a; b; return; \x7d" ∧
      ∃ own rest, s.watch 9 (before ++ later) = s.watch 9 before ++ rest ∧
        s.watch 9 (before ++ .line "\x7b var b = a; b; return; \x7d" :: later)
          = s.watch 9 before ++ own :: rest := by
  intro s before later
  have hrefused : ¬ Passes "\x7b var b = a; b; return; \x7d" := by decide +kernel
  exact ⟨hrefused, refused_steps_leave_no_trace 9 .unlimited (.ofBytes []) 0 .steady before later
    (.line "\x7b var b = a; b; return; \x7d") _ rfl hrefused⟩

end Refusal

end Lox
