import Mathlib
import Lox.Proofs.Session.Phases
import Lox.Proofs.Session.Visits

/-!
# Sessions without faults

* `StepOk`: a step leaves a session sound, and does not end with a fault of the machine. Files and
  lines of a prompt make such steps (`feed_ok`), so a session stays sound (`after_sound`).
* `visited_ok`: **every call that is made in a session** starts on a good machine, and is about what
  fits the place it comes from.
-/

namespace Lox

variable {w : World} {k fuel : Nat} {m : Machine} {s : Session}

/-! ## 1. Statements at the top -/

/-- A statement of a program stands at the top, with the global frame alone. -/
theorem placed_top {program : List Stmt} {statement : Stmt} (hprogram : w.programs program)
    (hloaded : Loaded m.distances k program) (hmem : statement ∈ program) (v : Visit) :
    Ready w k m v (.stmt statement) Store.globals :=
  ⟨program, .top, ⟨hprogram, hloaded, .top hmem, .global, .global⟩, .global⟩

theorem ofTop_ok {statement : Stmt} {v : Visit}
    (h : Ready w k m v (.stmt statement) Store.globals) : CallOk w k m v (.ofTop statement) := by
  cases statement with
  | expr e => exact Ready.same h fun _ => .expression
  | _ => exact h

/-- **A program that is run**, statement by statement. -/
theorem runAll_safe (hclosed : w.calls.Closed) {ss : List Stmt} (h : Good w k m)
    (hplaced : ∀ statement ∈ ss, ∀ v, Ready w k m v (.stmt statement) Store.globals)
    (hvisited : ∀ before statement rest m', ss = before ++ statement :: rest →
      (runAll fuel before).run m = (.ok (), m') →
        w.calls ⟨fuel, .execute statement Store.globals, m'⟩) :
    Safe w k m (runAll fuel ss) (fun _ _ => True) := by
  induction ss generalizing m with
  | nil => exact .pure h trivial
  | cons statement rest ih =>
    have hfirst : Safe w k m (execute fuel statement Store.globals)
        (FinishOk w k m statement Store.globals) :=
      safeAt hclosed fuel _ m (hvisited [] statement rest m rfl rfl) h
        (hplaced statement List.mem_cons_self _)
    refine hfirst.bind fun r m' hrun hafter _ => ih hafter.good ?_ ?_
    · intro other hmem v
      exact (hplaced other (List.mem_cons_of_mem _ hmem) v).later hafter.later
    · intro before other more m'' heq hbefore
      refine hvisited (statement :: before) other more m'' (by rw [heq]; rfl) ?_
      exact (run_bind_ok hrun).trans hbefore

/-! ## 2. Lines of a prompt -/

/-- **A step that leaves a session sound**, and that no fault ends. -/
structure StepOk (w : World) (s : Session) (step : Step) : Prop where
  after : After w s.nextId s.machine step.session.machine
  nextId : step.session.nextId = s.nextId
  fault : ∀ f, step.halt ≠ some (.fault f)

theorem settle_ok {α : Type} {r : Except Stop α × Machine}
    (hafter : After w s.nextId s.machine r.2) (hfault : ∀ f, r.1 ≠ .error (.fault f)) :
    StepOk w s (s.settle r) := by
  obtain ⟨r, m'⟩ := r
  cases r with
  | ok a => exact ⟨hafter, rfl, fun f hf => nomatch hf⟩
  | error e =>
    cases e with
    | error e => exact ⟨hafter, rfl, fun f hf => nomatch hf⟩
    | fault f => exact absurd rfl (hfault f)
    | starved => exact ⟨hafter, rfl, fun f hf => nomatch hf⟩

theorem Safe.map {α β : Type} {x : Run α} {ok : Machine → α → Prop} (f : α → β)
    (h : Safe w k m x ok) : Safe w k m (f <$> x) (fun _ _ => True) := by
  rw [map_eq_pure_bind]
  exact h.bind fun a m' _ hafter _ => .pure hafter.good trivial

theorem perform_safe {statement : Stmt} (h : SafeCall w k fuel m (.ofTop statement)) :
    Safe w k m (perform fuel statement) (fun _ _ => True) := by
  cases statement with
  | expr e => exact Safe.map Yield.value h
  | _ => exact Safe.map Yield.signal h

theorem runStatement_ok (hclosed : w.calls.Closed) {statement : Stmt}
    (h : Good w s.nextId s.machine)
    (hplaced : ∀ v, Ready w s.nextId s.machine v (.stmt statement) Store.globals)
    (hvisited : w.calls ⟨fuel, .ofTop statement, s.machine⟩) :
    StepOk w s (s.runStatement fuel statement) := by
  have hsafe := perform_safe (safeAt hclosed fuel _ _ hvisited h (ofTop_ok (hplaced _)))
  have hafter := hsafe.after
  have hfault := hsafe.fault
  unfold Session.runStatement
  split
  · next v m' hrun =>
    rw [hrun] at hafter
    have hecho := write_safe hafter.good (v.display ++ "\n")
    have hall := hafter.trans hecho.after
    split
    · next e m'' hwrite =>
      have hm : ((write (v.display ++ "\n")).run m').2 = m'' := congrArg Prod.snd hwrite
      rw [hm] at hall
      exact ⟨hall, rfl, fun f hf => nomatch hf⟩
    · exact settle_ok hall hecho.fault
  · exact settle_ok hafter hfault

theorem runStatements_ok (hclosed : w.calls.Closed) {ss : List Stmt}
    (h : Good w s.nextId s.machine)
    (hplaced : ∀ statement ∈ ss, ∀ v,
      Ready w s.nextId s.machine v (.stmt statement) Store.globals)
    (hvisited : ∀ before statement rest, ss = before ++ statement :: rest →
      (s.runStatements fuel before).halt = none →
        w.calls ⟨fuel, .ofTop statement, (s.runStatements fuel before).session.machine⟩) :
    StepOk w s (s.runStatements fuel ss) := by
  induction ss generalizing s with
  | nil => exact ⟨.refl h, rfl, fun f hf => nomatch hf⟩
  | cons statement rest ih =>
    have hfirst := runStatement_ok hclosed h (hplaced statement List.mem_cons_self)
      (hvisited [] statement rest rfl rfl)
    cases hhalt : (s.runStatement fuel statement).halt with
    | some halt =>
      rw [runStatements_halted hhalt]
      exact hfirst
    | none =>
      have hstep := runStatements_next hhalt
      have hlater := hfirst.after.later
      have hrest := ih (s := (s.runStatement fuel statement).session)
        (hfirst.nextId ▸ hfirst.after.good) (fun other hmem v => ?_) fun before other more heq hnone => ?_
      · rw [hstep]
        exact ⟨hfirst.after.trans (hfirst.nextId ▸ hrest.after), hrest.nextId.trans hfirst.nextId,
          hrest.fault⟩
      · rw [hfirst.nextId]
        exact (hplaced other (List.mem_cons_of_mem _ hmem) v).later hlater
      · have hbefore := hvisited (statement :: before) other more (by rw [heq]; rfl)
        rw [hstep] at hbefore
        exact hbefore hnone

/-! ## 3. Steps -/

section Steps

variable {entry : Entry}

/-- The calls that a step starts with are in the history, and the program it runs among the programs. -/
structure Covered (w : World) (fuel : Nat) (s : Session) (entry : Entry) : Prop where
  programs : ∀ source s' program, entry.source? = some source →
    s.accept source = (s', some program) → w.programs program
  calls : ∀ c m, Begins fuel s entry c m → w.calls ⟨fuel, c, m⟩

/-- The statements of a program that is let through. -/
theorem accepted_placed (h : Sound w s) (hcovered : Covered w fuel s entry) {source : String}
    {s' : Session} {program : List Stmt} (hsource : entry.source? = some source)
    (haccept : s.accept source = (s', some program)) :
    Sound w s' ∧ ∀ statement ∈ program, ∀ v,
      Ready w s'.nextId s'.machine v (.stmt statement) Store.globals := by
  obtain ⟨hsound, hloaded⟩ := accept_sound source h
  rw [haccept] at hsound hloaded
  exact ⟨hsound, fun statement hmem v =>
    placed_top (hcovered.programs source s' program hsource haccept) (hloaded program rfl) hmem v⟩

/-- **The front of a program that is let through runs safely**, up to its first error. -/
theorem file_front_ok (hclosed : w.calls.Closed) (h : Sound w s) {source : String}
    (hcovered : Covered w fuel s (.file source)) {s' : Session} {front rest : List Stmt}
    (haccept : s.accept source = (s', some (front ++ rest))) :
    Safe w s'.nextId s'.machine (runAll fuel front) (fun _ _ => True) := by
  obtain ⟨hs', hplaced⟩ := accepted_placed h hcovered rfl haccept
  refine runAll_safe hclosed hs'.good
    (fun other hmem v => hplaced other (List.mem_append_left _ hmem) v)
    fun done other more m' heq hdone => ?_
  rw [heq, List.append_assoc, List.cons_append] at haccept
  exact hcovered.calls _ _ (.file haccept hdone)

/-- The front of a line that is let through runs safely. -/
theorem line_front_ok (hclosed : w.calls.Closed) (h : Sound w s) {source : String}
    (hcovered : Covered w fuel s (.line source)) {s' : Session} {front rest : List Stmt}
    (haccept : s.accept source = (s', some (front ++ rest))) :
    StepOk w s' (s'.runStatements fuel front) := by
  obtain ⟨hs', hplaced⟩ := accepted_placed h hcovered rfl haccept
  refine runStatements_ok hclosed hs'.good
    (fun other hmem v => hplaced other (List.mem_append_left _ hmem) v)
    fun done other more heq hdone => ?_
  rw [heq, List.append_assoc, List.cons_append] at haccept
  exact hcovered.calls _ _ (.line haccept hdone)

/-- **A step keeps a session sound**, and no fault ends it. -/
theorem feed_ok (hclosed : w.calls.Closed) (h : Sound w s) (hcovered : Covered w fuel s entry) :
    Sound w (s.feed fuel entry).session ∧ ∀ f, (s.feed fuel entry).halt ≠ some (.fault f) := by
  -- a step of a session that is sound after the front end
  have hstep : ∀ {s' : Session} {step : Step}, Sound w s' → StepOk w s' step →
      Sound w step.session ∧ ∀ f, step.halt ≠ some (.fault f) := by
    intro s' step hs' hok
    refine ⟨⟨hok.nextId ▸ hok.after.good, fun id hid => ?_⟩, hok.fault⟩
    rw [hok.after.distances]
    exact hs'.fresh id (hok.nextId ▸ hid)
  cases entry with
  | file source =>
    have hsound := (accept_sound source h).1
    show Sound w (s.runFile fuel source).session ∧ ∀ f, (s.runFile fuel source).halt ≠ _
    unfold Session.runFile
    split
    · next s' haccept =>
      rw [haccept] at hsound
      exact ⟨hsound, fun f hf => nomatch hf⟩
    · next s' program haccept =>
      rw [haccept] at hsound
      rw [← List.append_nil program] at haccept
      have hrun := file_front_ok hclosed h hcovered haccept
      exact hstep hsound (settle_ok hrun.after hrun.fault)
  | line source =>
    have hsound := (accept_sound source h).1
    show Sound w (s.runLine fuel source).session ∧ ∀ f, (s.runLine fuel source).halt ≠ _
    unfold Session.runLine
    split
    · next s' haccept =>
      rw [haccept] at hsound
      exact ⟨hsound, fun f hf => nomatch hf⟩
    · next s' program haccept =>
      rw [haccept] at hsound
      rw [← List.append_nil program] at haccept
      exact hstep hsound (line_front_ok hclosed h hcovered haccept)
  | outside sink input now clock =>
    have hafter : After w s.nextId s.machine { s.machine with sink, input, now, clock } :=
      .of_same h.good (fun _ => rfl) rfl (fun _ => rfl) rfl
    exact hstep h ⟨hafter, rfl, fun f hf => nomatch hf⟩

/-- **The calls that a step starts with** are about what fits. -/
theorem begins_ok (hclosed : w.calls.Closed) (h : Sound w s) (hcovered : Covered w fuel s entry)
    {c : Call} (hb : Begins fuel s entry c m) (v : Visit) :
    ∃ k, Good w k m ∧ CallOk w k m v c := by
  cases hb with
  | @file source s' before statement rest m haccept hrun =>
    obtain ⟨hs', hplaced⟩ := accepted_placed h hcovered rfl haccept
    obtain ⟨hafter, -⟩ := (file_front_ok hclosed h hcovered haccept).of_run hrun
    exact ⟨s'.nextId, hafter.good,
      (hplaced statement (by simp) v).later hafter.later⟩
  | @line source s' before statement rest haccept hnone =>
    obtain ⟨hs', hplaced⟩ := accepted_placed h hcovered rfl haccept
    have hbefore := line_front_ok hclosed h hcovered haccept
    exact ⟨s'.nextId, hbefore.after.good,
      ofTop_ok ((hplaced statement (by simp) v).later hbefore.after.later)⟩

end Steps

/-! ## 4. Sessions -/

section Sessions

variable {entries : List Entry} {sink : Sink} {input : Input} {now : Instant} {clock : Clock}

theorem covered {before later : List Entry} {entry : Entry} (s : Session) (fuel : Nat)
    (h : entries = before ++ entry :: later) :
    Covered (worldOf fuel s entries) fuel (s.after fuel before) entry where
  programs source s' _ hsource haccept :=
    ⟨before, entry, later, source, s', h, hsource, haccept⟩
  calls _ _ hb := .begins h hb

/-- **A session stays sound.** -/
theorem after_sound (h : Sound (worldOf fuel s entries) s) {before later : List Entry}
    (heq : entries = before ++ later) :
    Sound (worldOf fuel s entries) (s.after fuel before) := by
  induction before using List.reverseRecOn generalizing later with
  | nil => exact h
  | append_singleton before entry ih =>
    rw [List.append_assoc] at heq
    have hfed := feed_ok (worldOf_closed fuel s entries) (ih heq) (covered s fuel heq)
    unfold Session.after
    rw [List.foldl_append]
    exact hfed.1

/-- **A program that was let through** fits the table it is noted in. -/
theorem Accepted.loaded (h : Sound (worldOf fuel s entries) s) {program : List Stmt}
    (ha : Accepted fuel s entries program) : ∃ d k, Loaded d k program := by
  obtain ⟨before, entry, later, source, s', heq, -, haccept⟩ := ha
  exact ⟨_, _, (accept_sound source (after_sound h heq)).2 program (by rw [haccept])⟩

/-- A session that can be reached. -/
def Reached (fuel : Nat) (s : Session) : Prop :=
  ∃ sink input now clock entries, s = (Session.start sink input now clock).after fuel entries

namespace Reached

theorem feed (h : Reached fuel s) (entry : Entry) : Reached fuel (s.feed fuel entry).session := by
  obtain ⟨sink, input, now, clock, entries, rfl⟩ := h
  refine ⟨sink, input, now, clock, entries ++ [entry], ?_⟩
  unfold Session.after
  rw [List.foldl_append]
  rfl

/-- What a session that can be reached may go on with. -/
theorem sound (h : Reached fuel s) (entry : Entry) :
    ∃ w : World, w.calls.Closed ∧ Sound w s ∧ Covered w fuel s entry := by
  obtain ⟨sink, input, now, clock, entries, rfl⟩ := h
  let start := Session.start sink input now clock
  exact ⟨worldOf fuel start (entries ++ [entry]), worldOf_closed fuel start _,
    after_sound (start_sound _ sink input now clock) rfl, covered start fuel rfl⟩

theorem fresh (h : Reached fuel s) (id : RefId) (hid : s.nextId ≤ id.index) :
    s.machine.distances.find? id = none := by
  obtain ⟨w, -, hsound, -⟩ := h.sound (.file "")
  exact hsound.fresh id hid

end Reached

/-- **Every call that is made in a session** is about what fits. -/
theorem visited_ok (h : Sound (worldOf fuel s entries) s) {v : Visit}
    (hv : Visited fuel s entries v) :
    ∃ k, Good (worldOf fuel s entries) k v.machine ∧
      CallOk (worldOf fuel s entries) k v.machine v v.call := by
  have hclosed := worldOf_closed fuel s entries
  induction hv with
  | begins heq hb => exact begins_ok hclosed (after_sound h heq) (covered s fuel heq) hb _
  | @makes n c m c' m' hvisited hm ih =>
    obtain ⟨k, hgood, hc⟩ := ih
    obtain ⟨hafter, hc'⟩ := hm.ok (safeAt hclosed n) hclosed rfl hvisited hgood hc
    exact ⟨k, hafter.good, hc'.made hm⟩

/-- **No session ends with a fault of the machine**, whatever its sources, its input and its output, and
    wherever it runs out of fuel. Wherever `super` is evaluated, its distance is there and is not zero,
    the frame at that distance binds `super` to a class, and the frame one link nearer binds `this` to
    an instance. -/
theorem sessions_never_fault (fuel : Nat) (sink : Sink) (input : Input) (now : Instant) (clock : Clock)
    (entries : List Entry) :
    let s := Session.start sink input now clock
    (∀ entry f, ((s.after fuel entries).feed fuel entry).halt ≠ some (.fault f)) ∧
    ∀ v ref method env, Visited fuel s entries v → v.call = .evaluate (.super ref method) env →
      ∃ d near far, v.machine.distances.find? ref.id = some (d + 1) ∧
        env[d]? = some near ∧ env[d + 1]? = some far ∧
        (∃ o c, (v.machine.store.frame near).find? thisName = some (.object o c)) ∧
        ∃ c, (v.machine.store.frame far).find? superName = some (.ofClass c) := by
  intro s
  refine ⟨fun entry f => ?_, fun v ref method env hv hcall => ?_⟩
  · have hclosed := worldOf_closed fuel s (entries ++ [entry])
    have hsound := after_sound (start_sound (worldOf fuel s (entries ++ [entry])) sink input now clock)
      (show entries ++ [entry] = entries ++ [entry] from rfl)
    exact (feed_ok hclosed hsound (covered s fuel rfl)).2 f
  · obtain ⟨k, -, hc⟩ := visited_ok (start_sound _ sink input now clock) hv
    rw [hcall] at hc
    obtain ⟨program, p, hp⟩ := hc
    exact hp.super_frames

/-- An initializer that reaches into the superclass. -/
theorem sessions_never_fault_initializer :
    let source := "class A\x7b\x7d class B<A\x7binit()\x7bsuper.m;\x7d\x7d B();"
    let s := Session.start .unlimited (.ofBytes []) 0
    let ref : Reference := ⟨⟨1⟩, ⟨.kwSuper, "super", ⟨1, 32⟩⟩⟩
    ∃ v env, Visited 12 s [.line source] v ∧
      v.call = .evaluate (.super ref ⟨.identifier, "m", ⟨1, 34⟩⟩) env ∧
      ∃ d near far, v.machine.distances.find? ref.id = some (d + 1) ∧
        env[d]? = some near ∧ env[d + 1]? = some far ∧
        (∃ o c, (v.machine.store.frame near).find? thisName = some (.object o c)) ∧
        ∃ c, (v.machine.store.frame far).find? superName = some (.ofClass c) := by
  intro source s ref
  let name (w : String) (column : Nat) : Token := ⟨.identifier, w, ⟨1, column⟩⟩
  let super : Stmt := .expr (.super ref (name "m" 34))
  let call : Expr := .call (.read ⟨⟨2⟩, name "B" 39⟩) ⟨.rightParen, ")", ⟨1, 41⟩⟩ []
  let classes : List Stmt := [.classDecl (name "A" 7) none [],
    .classDecl (name "B" 17) (some ⟨⟨0⟩, name "A" 19⟩) [.mk (name "init" 24) (.mk [] [super])]]
  let a : Class := .mk 0 "A" none []
  let b : Class := .mk 1 "B" (some a) [("init", ⟨some "init", .mk [] [super], [1, 0], true⟩)]
  let frames : Array (Bindings Value) :=
    #[nativeBindings ++ [("A", .ofClass a), ("B", .ofClass b)], [("super", .ofClass a)]]
  let m (store : Store) : Machine :=
    ⟨store, ⟨#[none, some 2]⟩, .unlimited, .ofBytes [], 0, .steady⟩
  -- the session after the front end, and after the classes
  have haccept : s.accept source =
      (⟨m ⟨#[nativeBindings], #[], 0⟩, 3, .empty⟩, some (classes ++ .expr call :: [])) := by cbv
  have hclasses : Session.runStatements 12 ⟨m ⟨#[nativeBindings], #[], 0⟩, 3, .empty⟩ classes
      = ⟨⟨m ⟨frames, #[], 2⟩, 3, .empty⟩, none⟩ := by cbv
  have hcallee : (evaluate 11 (.read ⟨⟨2⟩, name "B" 39⟩) Store.globals).run (m ⟨frames, #[], 2⟩)
      = (.ok (.ofClass b), m ⟨frames, #[], 2⟩) := by cbv
  have hbegins := Begins.line haccept (congrArg Step.halt hclasses)
  rw [hclasses] at hbegins
  have hcall := Visited.begins (show [Entry.line source] = [] ++ _ :: [] from rfl) hbegins
  have happly := hcall.makes (.applied hcallee rfl rfl)
  have hbody := (happly.makes (.initializer rfl rfl rfl)).makes (.body rfl)
  have hsuper := (hbody.makes .firstStatement).makes .expression
  exact ⟨_, _, hsuper, rfl, (sessions_never_fault 12 .unlimited (.ofBytes []) 0 .steady [.line source]).2
    _ ref _ _ hsuper rfl⟩

end Sessions

end Lox
