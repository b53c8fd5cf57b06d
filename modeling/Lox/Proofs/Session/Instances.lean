import Lox.Proofs.Machine.Fields
import Lox.Proofs.Session.Globals
import Lox.Proofs.Session.Receivers
import Lox.Proofs.Session.Truncation

/-!
# Instances

An instance holds its fields for itself, and has the methods of a finite chain of classes, none of which
ever changes.

* `Persists`: what no call undoes that a step starts with. `Heap`: the machines of a session, before and
  behind every call. `kept_persists`: the instances with what was set on them.
* `Class.Declared`: a class has the methods that a declaration of the session gave it, and of methods with
  one name the last.
* `Gives`: **what an instance gives for a name**: what the name was set to last on that very instance, and
  else the method of the nearest class of the chain that declares it, bound to the instance.
* `instances_are_stores_of_their_own`: every instance of a session is proper, and no call changes what it
  gives for a name, except by setting the name on that instance.
-/

namespace Lox

variable {fuel n k : Nat} {s : Session} {entries : List Entry} {H : History} {I : Machine → Prop}
  {m m' : Machine} {cs : List Class}

/-! ## 1. What persists in a session -/

/-- A call that a step starts with has no values of its own. -/
theorem fit_ofTop (W : History) (cs : List Class) (m : Machine) (statement : Stmt) :
    Fit W cs m (.ofTop statement) := by
  cases statement <;> trivial

/-- **What no call undoes** that a step starts with. It goes by the store alone. -/
structure Persists (fuel : Nat) (H : History) (I : Machine → Prop) : Prop where
  store : ∀ m m', m'.store = m.store → I m → I m'
  call : ∀ c m, H ⟨fuel, c, m⟩ → (∀ W cs, Fit W cs m c) → I m → I (machineAfter fuel m c)

/-- A machine of a session: one on which a call starts, one behind a call, or one between two entries. -/
inductive Heap (fuel : Nat) (s : Session) (entries : List Entry) : Machine → Prop where
  | before {n c m} (h : Visited fuel s entries ⟨n, c, m⟩) : Heap fuel s entries m
  | behind {n c m} (h : Visited fuel s entries ⟨n, c, m⟩) : Heap fuel s entries (machineAfter n m c)
  | between {front rest} (h : entries = front ++ rest) : Heap fuel s entries (s.after fuel front).machine

namespace Persists

/-- What the statements of a program start with. -/
theorem runAll (h : Persists fuel H I) {ss : List Stmt}
    (hvisited : ∀ before statement rest m', ss = before ++ statement :: rest →
      (Lox.runAll fuel before).run m = (.ok (), m') →
        H ⟨fuel, .execute statement Store.globals, m'⟩) (hm : I m) :
    I ((Lox.runAll fuel ss).run m).2 := by
  induction ss generalizing m with
  | nil => exact hm
  | cons statement rest ih =>
    have hfirst := h.call _ m (hvisited [] statement rest m rfl rfl) (fun _ _ => trivial) hm
    rw [machineAfter] at hfirst
    cases hrun : (execute fuel statement Store.globals).run m with
    | mk r m₁ =>
      rw [hrun] at hfirst
      cases r with
      | error stop => rwa [show (Lox.runAll fuel (statement :: rest)).run m = _ from run_bind_error hrun]
      | ok signal =>
        rw [show (Lox.runAll fuel (statement :: rest)).run m = _ from run_bind_ok hrun]
        exact ih (fun before other more m' heq hbefore => hvisited (statement :: before) other more m'
          (by rw [heq]; rfl) ((run_bind_ok hrun).trans hbefore)) hfirst

/-- Showing a value leaves the store as the statement does. -/
theorem runStatement (h : Persists fuel H I) {statement : Stmt}
    (hvisited : H ⟨fuel, .ofTop statement, s.machine⟩) (hs : I s.machine) :
    I (s.runStatement fuel statement).session.machine := by
  have hafter := h.call _ _ hvisited (fun W cs => fit_ofTop W cs _ statement) hs
  rw [← perform_snd] at hafter
  cases hrun : (perform fuel statement).run s.machine with
  | mk r m₁ =>
    rw [hrun] at hafter
    refine h.store m₁ _ ?_ hafter
    rw [Session.runStatement, hrun]
    cases r with
    | error stop => rw [settle_machine]
    | ok y =>
      cases y with
      | signal signal => rfl
      | value v =>
        simp only [echo_run]
        cases (m₁.sink.write v.line).1 <;> rfl

theorem runStatements (h : Persists fuel H I) {ss : List Stmt}
    (hvisited : ∀ before statement rest, ss = before ++ statement :: rest →
      (s.runStatements fuel before).halt = none →
        H ⟨fuel, .ofTop statement, (s.runStatements fuel before).session.machine⟩)
    (hs : I s.machine) : I (s.runStatements fuel ss).session.machine := by
  induction ss generalizing s with
  | nil => exact hs
  | cons statement rest ih =>
    have hfirst := h.runStatement (hvisited [] statement rest rfl rfl) hs
    cases hhalt : (s.runStatement fuel statement).halt with
    | some halt => rwa [runStatements_halted hhalt]
    | none =>
      rw [runStatements_next hhalt]
      refine ih (fun before other more heq hnone => ?_) hfirst
      have hbefore := hvisited (statement :: before) other more (by rw [heq]; rfl)
      rw [runStatements_next hhalt] at hbefore
      exact hbefore hnone

theorem accept (h : Persists fuel H I) {source : String} {s' : Session} {r : Option (List Stmt)}
    (haccept : s.accept source = (s', r)) (hs : I s.machine) : I s'.machine := by
  obtain ⟨d, hmachine, -⟩ := accept_machine s source
  rw [haccept] at hmachine
  exact h.store _ _ (by rw [hmachine]) hs

/-- The front of a program that is let through. -/
theorem fileFront (h : Persists fuel H I) {source : String} {s' : Session} {front rest : List Stmt}
    (hbegins : ∀ c m, Begins fuel s (.file source) c m → H ⟨fuel, c, m⟩)
    (haccept : s.accept source = (s', some (front ++ rest))) (hs : I s.machine) :
    I ((Lox.runAll fuel front).run s'.machine).2 := by
  refine h.runAll (fun before statement more m' heq hbefore => ?_) (h.accept haccept hs)
  rw [heq, List.append_assoc, List.cons_append] at haccept
  exact hbegins _ _ (.file haccept hbefore)

/-- The front of a line that is let through. -/
theorem lineFront (h : Persists fuel H I) {source : String} {s' : Session} {front rest : List Stmt}
    (hbegins : ∀ c m, Begins fuel s (.line source) c m → H ⟨fuel, c, m⟩)
    (haccept : s.accept source = (s', some (front ++ rest))) (hs : I s.machine) :
    I (s'.runStatements fuel front).session.machine := by
  refine h.runStatements (fun before statement more heq hnone => ?_) (h.accept haccept hs)
  rw [heq, List.append_assoc, List.cons_append] at haccept
  exact hbegins _ _ (.line haccept hnone)

/-- **A step** keeps what persists. -/
theorem feed (h : Persists fuel H I) {entry : Entry}
    (hbegins : ∀ c m, Begins fuel s entry c m → H ⟨fuel, c, m⟩) (hs : I s.machine) :
    I (s.feed fuel entry).session.machine := by
  cases entry with
  | outside sink input now clock => exact h.store s.machine _ rfl hs
  | file source =>
    show I (s.runFile fuel source).session.machine
    rw [Session.runFile]
    split
    · next s' haccept => exact h.accept haccept hs
    · next s' program haccept =>
      rw [settle_machine]
      rw [← List.append_nil program] at haccept
      exact h.fileFront hbegins haccept hs
  | line source =>
    show I (s.runLine fuel source).session.machine
    rw [Session.runLine]
    split
    · next s' haccept => exact h.accept haccept hs
    · next s' program haccept =>
      rw [← List.append_nil program] at haccept
      exact h.lineFront hbegins haccept hs

variable (h : Persists fuel (Visited fuel s entries) I) (hs : I s.machine)
include h hs

/-- **Entry by entry**, a session keeps what persists. -/
theorem after {front rest : List Entry} (heq : entries = front ++ rest) :
    I (s.after fuel front).machine := by
  induction front using List.reverseRecOn generalizing rest with
  | nil => exact hs
  | append_singleton front entry ih =>
    rw [List.append_assoc] at heq
    unfold Session.after
    rw [List.foldl_append]
    exact h.feed (fun c m hb => .begins heq hb) (ih heq)

/-- What persists is so where a step starts with a call. -/
theorem begins {front rest : List Entry} {entry : Entry} {c : Call}
    (heq : entries = front ++ entry :: rest) (hb : Begins fuel (s.after fuel front) entry c m) : I m := by
  have hfront := h.after hs heq
  cases hb with
  | file haccept hrun =>
    have hdone := h.fileFront (fun c m hb => .begins heq hb) haccept hfront
    rwa [hrun] at hdone
  | line haccept hnone => exact h.lineFront (fun c m hb => .begins heq hb) haccept hfront

end Persists

/-! ## 2. Instances of a session -/

/-- Instances have their classes, and fields what they were set to since a machine. -/
def Kept (H : History) (m₀ m : Machine) : Prop :=
  ∃ cs log, Populated H cs m ∧ Sets H m₀ log m

theorem Since.kept {cs' : List Class} {m₀ : Machine} {log : List Setting}
    (h : Since H H cs m cs' m') (hlog : Sets H m₀ log m) : Kept H m₀ m' := by
  obtain ⟨log', hlog'⟩ := h.sets
  exact ⟨cs', _, h.populated, hlog.trans hlog'⟩

theorem Begins.fit {entry : Entry} {c : Call} (hb : Begins fuel s entry c m) : Fit H cs m c := by
  cases hb with
  | file => trivial
  | line => exact fit_ofTop _ _ _ _

theorem visited_closed (fuel : Nat) (s : Session) (entries : List Entry) :
    (Visited fuel s entries).Closed := fun _ _ _ _ _ h hm => .makes h hm

/-- No step undoes it. -/
theorem kept_persists (fuel : Nat) (s : Session) (entries : List Entry) :
    Persists fuel (Visited fuel s entries) (Kept (Visited fuel s entries) s.machine) where
  store m m' hstore := by
    rintro ⟨cs, log, hpopulated, hlog⟩
    exact (Since.of_store hpopulated hstore).kept hlog
  call c m hv hfit := by
    rintro ⟨cs, log, hpopulated, hlog⟩
    obtain ⟨cs', hsince⟩ := (handlesAt (visited_closed fuel s entries) (fun _ h => h) fuel c m cs hv
      hpopulated (hfit _ cs)).since
    exact hsince.kept hlog

/-- At the start there are no instances, and the variables hold native functions. -/
theorem start_populated (H : History) (sink : Sink) (input : Input) (now : Instant) (clock : Clock) :
    Populated H [] (Session.start sink input now clock).machine where
  size := rfl
  made _ hc := nomatch hc
  holds u hu := by
    obtain ⟨f, x, hu⟩ | ⟨o, x, hu⟩ := hu
    · cases f with
      | zero =>
        have hmem : (x, u) ∈ nativeBindings := Bindings.mem_of_find? hu
        obtain ⟨g, -, heq⟩ := List.mem_map.mp hmem
        cases heq
        trivial
      | succ f => cases hu
    · cases hu

section

variable {sink : Sink} {input : Input} {now : Instant} {clock : Clock}

theorem start_kept (H : History) (sink : Sink) (input : Input) (now : Instant) (clock : Clock) :
    Kept H (Session.start sink input now clock).machine (Session.start sink input now clock).machine :=
  ⟨[], [], start_populated H sink input now clock, .none⟩

/-- **Every call of a session** starts on a machine on which all is as it should be, with values that
    the program made. -/
theorem visited_fit {v : Visit} (hv : Visited fuel (.start sink input now clock) entries v) :
    ∃ cs log, Populated (Visited fuel (.start sink input now clock) entries) cs v.machine ∧
      Sets (Visited fuel (.start sink input now clock) entries) (Session.start sink input now clock).machine log
        v.machine ∧
      Fit (Visited fuel (.start sink input now clock) entries) cs v.machine v.call := by
  induction hv with
  | begins heq hb =>
    obtain ⟨cs, log, hpopulated, hlog⟩ := (kept_persists fuel _ entries).begins
      (start_kept _ sink input now clock) heq hb
    exact ⟨cs, log, hpopulated, hlog, hb.fit⟩
  | makes hv hm ih =>
    obtain ⟨cs, log, hpopulated, hlog, hfit⟩ := ih
    obtain ⟨cs', hsince, hfit'⟩ :=
      hm.fit (visited_closed fuel _ entries) (fun _ h => h) hv hpopulated hfit
    obtain ⟨log', hlog'⟩ := hsince.sets
    exact ⟨cs', _, hsince.populated, hlog.trans hlog', hfit'⟩

/-- **On every machine of a session** instances have their classes, and fields what they were set to. -/
theorem Heap.kept (h : Heap fuel (.start sink input now clock) entries m) :
    Kept (Visited fuel (.start sink input now clock) entries) (Session.start sink input now clock).machine m := by
  cases h with
  | before hv =>
    obtain ⟨cs, log, hpopulated, hlog, -⟩ := visited_fit hv
    exact ⟨cs, log, hpopulated, hlog⟩
  | behind hv =>
    obtain ⟨cs, log, hpopulated, hlog, hfit⟩ := visited_fit hv
    obtain ⟨cs', hsince⟩ := (handlesAt (visited_closed fuel _ entries) (fun _ h => h) _ _ _ cs hv
      hpopulated hfit).since
    exact hsince.kept hlog
  | between heq => exact (kept_persists fuel _ entries).after (start_kept _ sink input now clock) heq

end

/-! ## 3. Classes -/

/-- **A class is as a declaration of the history has it**: of methods with one name, it has the last. -/
def Class.Declared (H : History) (c : Class) : Prop :=
  ∃ n name superclass methods env m inner,
    H ⟨n + 1, .execute (.classDecl name superclass methods) env, m⟩ ∧
    Declares (.execute (.classDecl name superclass methods) env) m
      (.classDecl name superclass methods) inner ∧
    c.name = name.lexeme ∧ c.superclass.isSome = superclass.isSome ∧
    ∀ x, c.methods.find? x
      = (methods.reverse.find? fun d => d.name.lexeme = x).map fun d => (methodOf inner d).2

theorem find?_methods (methods : List FunDecl) (inner : Env) (x : String) :
    (Bindings.ofPairs (methods.map (methodOf inner))).find? x
      = (methods.reverse.find? fun d => d.name.lexeme = x).map fun d => (methodOf inner d).2 := by
  have hname : ((fun p : String × Closure => decide (p.1 = x)) ∘ methodOf inner)
      = fun d => decide (d.name.lexeme = x) := funext fun ⟨_, _⟩ => rfl
  rw [Bindings.find?_ofPairs, ← List.map_reverse, List.find?_map, Option.map_map, hname]
  rfl

namespace Class

variable {c : Class}

theorem chain_eq_cons (c : Class) : ∃ rest, c.chain = c :: rest := by
  obtain ⟨id, name, superclass, methods⟩ := c
  cases superclass with
  | none => exact ⟨[], rfl⟩
  | some c => exact ⟨c.chain, rfl⟩

/-- **Along the chain of a class** each class was made before the one in front of it. -/
theorem Made.descending (h : c.Made H) : c.chain.Pairwise fun k parent => parent.id < k.id := by
  induction h with
  | base => exact List.pairwise_singleton _ _
  | @derived n name ref methods env m c f _ _ _ hid ih =>
    refine List.pairwise_cons.mpr ⟨fun parent hparent => ?_, ih⟩
    obtain ⟨rest, hrest⟩ := c.chain_eq_cons
    rw [hrest] at hparent ih
    rcases List.mem_cons.mp hparent with rfl | hparent
    · exact hid
    · exact Nat.lt_trans ((List.pairwise_cons.mp ih).1 parent hparent) hid

theorem Made.declared (h : c.Made H) : ∀ k ∈ c.chain, k.Declared H := by
  induction h with
  | base hv =>
    intro k hk
    obtain rfl := List.mem_singleton.mp hk
    exact ⟨_, _, none, _, _, _, _, hv, .base, rfl, rfl, find?_methods _ _⟩
  | derived hv hc _ _ ih =>
    intro k hk
    rcases List.mem_cons.mp hk with rfl | hk
    · cases hc with
      | intro hsuper => exact ⟨_, _, some _, _, _, _, _, hv, .derived hsuper, rfl, rfl, find?_methods _ _⟩
    · exact ih k hk

end Class

/-! ## 4. What an instance gives for a name -/

section

variable {log : List Setting} {o : ObjectId} {c d : Class} {name : Token} {m₀ : Machine}

/-- **What an instance gives for a name**, after some fields were set: what it was set to last, or the
    method of the nearest class that declares it, bound to the instance, or an error. -/
inductive Gives (log : List Setting) (o : ObjectId) (c : Class) (name : Token) (m : Machine) :
    Except Stop Value × Machine → Prop where
  | field {v} (h : lastSet log o name.lexeme = some v) : Gives log o c name m (.ok v, m)
  | method {f id frame m'} (h : lastSet log o name.lexeme = none)
      (hf : c.chain.findSome? (fun k => k.methods.find? name.lexeme) = some f)
      (hthis : m'.store.frame frame = [(thisName, .object o c)]) :
      Gives log o c name m (.ok (.function id { f with env := frame :: f.env }), m')
  | missing (h : lastSet log o name.lexeme = none)
      (hf : c.chain.findSome? (fun k => k.methods.find? name.lexeme) = none) :
      Gives log o c name m (.error (.error (.undefinedProperty name.lexeme name.pos)), m)

/-- **The same answer**: the same value, or the same method bound to the same instance, each time as a
    function of its own, or the same error. -/
inductive SameAnswer (o : ObjectId) (c : Class) :
    Except Stop Value × Machine → Except Stop Value × Machine → Prop where
  | field {v m m'} : SameAnswer o c (.ok v, m) (.ok v, m')
  | method {f : Closure} {id frame m id' frame' m'}
      (h : m.store.frame frame = [(thisName, .object o c)])
      (h' : m'.store.frame frame' = [(thisName, .object o c)]) :
      SameAnswer o c (.ok (.function id { f with env := frame :: f.env }), m)
        (.ok (.function id' { f with env := frame' :: f.env }), m')
  | missing {e m m'} : SameAnswer o c (.error e, m) (.error e, m')

/-- What an instance gives goes by its field of the name, and by its class. -/
theorem property_gives (hlog : Sets H m₀ log m) (hnew : m₀.store.objects = #[]) (o : ObjectId)
    (c : Class) (name : Token) : Gives log o c name m ((property o c name).run m) := by
  have hfield := hlog.find? o name.lexeme
  rw [show m₀.store.fields o = [] by rw [Store.fields, hnew]; rfl, Bindings.find?_nil] at hfield
  have hmethod := methodOr_run c name o c m
  rw [run_property, hfield]
  cases hset : lastSet log o name.lexeme with
  | some v => exact .field hset
  | none =>
    show Gives log o c name m ((methodOr c name o c).run m)
    split at hmethod
    · next f hf =>
      obtain ⟨id, frame, m', hrun, hthis⟩ := hmethod
      rw [hrun]
      exact .method hset hf hthis
    · next hf =>
      rw [hmethod]
      exact .missing hset hf

theorem property_same (c : Class) (h : (m'.store.fields o).find? name.lexeme
      = (m.store.fields o).find? name.lexeme) :
    SameAnswer o c ((property o c name).run m) ((property o c name).run m') := by
  rw [run_property, run_property, h]
  cases (m.store.fields o).find? name.lexeme with
  | some v => exact .field
  | none =>
    show SameAnswer o c ((methodOr c name o c).run m) ((methodOr c name o c).run m')
    have hmethod := methodOr_run c name o c m
    have hmethod' := methodOr_run c name o c m'
    cases hf : c.chain.findSome? (fun k => k.methods.find? name.lexeme) with
    | some f =>
      rw [hf] at hmethod hmethod'
      obtain ⟨id, frame, m₁, hrun, hthis⟩ := hmethod
      obtain ⟨id', frame', m₁', hrun', hthis'⟩ := hmethod'
      rw [hrun, hrun']
      exact .method hthis hthis'
    | none =>
      rw [hf] at hmethod hmethod'
      rw [hmethod, hmethod']
      exact .missing

/-- **An instance is as it should be**: its chain of classes is finite and comes to an end, each class is as
    declared, and the instance gives for each name what it should. -/
structure ProperInstance (H : History) (m₀ m : Machine) (o : ObjectId) (c : Class) : Prop where
  descending : c.chain.Pairwise fun k parent => parent.id < k.id
  declared : ∀ k ∈ c.chain, k.Declared H
  gives : ∃ log, Sets H m₀ log m ∧ ∀ name, Gives log o c name m ((property o c name).run m)

theorem Populated.proper (h : Populated H cs m) (hlog : Sets H m₀ log m) (hnew : m₀.store.objects = #[])
    (hc : cs[o]? = some c) : ProperInstance H m₀ m o c := by
  have hmade := h.made c (List.mem_of_getElem? hc)
  exact ⟨hmade.descending, hmade.declared, log, hlog, property_gives hlog hnew o c⟩

end

/-! ## 5. Sessions -/

section

variable {sink : Sink} {input : Input} {now : Instant} {clock : Clock}

theorem Visited.leads {v u : Visit} (hv : Visited fuel s entries v) (h : Leads v u) :
    Visited fuel s entries u := by
  induction h with
  | refl => exact hv
  | makes _ hm ih => exact .makes ih hm

/-- A call changes no field but those that calls set to which it leads. -/
theorem find?_machineAfter {c : Call} {o : ObjectId} {x : String}
    (hv : Visited fuel (.start sink input now clock) entries ⟨n, c, m⟩)
    (hnone : ∀ u w m₁, Leads ⟨n, c, m⟩ u → SetsField u w m₁ → ¬ (w.object = o ∧ w.name = x)) :
    ((machineAfter n m c).store.fields o).find? x = (m.store.fields o).find? x := by
  obtain ⟨cs, -, hpopulated, -, hfit⟩ := visited_fit hv
  obtain ⟨cs', hsince⟩ := (handlesAt (H := Leads ⟨n, c, m⟩) (fun _ _ _ _ _ h hm => .makes h hm)
    (fun _ h => hv.leads h) n c m cs .refl hpopulated hfit).since
  obtain ⟨log, hlog⟩ := hsince.sets
  have hlast : lastSet log o x = none := by
    rw [lastSet, Option.map_eq_none_iff, List.find?_eq_none]
    intro w hw
    obtain ⟨u, m₁, hu, hset⟩ := hlog.mem hw
    simpa using hnone u w m₁ hu hset
  rw [hlog.find?, hlast]
  rfl

/-- The instance that an expression comes to has its class. -/
theorem evaluated_object {e : Expr} {env : Env} {o : ObjectId} {c : Class}
    (hv : Visited fuel (.start sink input now clock) entries ⟨n, .evaluate e env, m⟩)
    (hrun : (evaluate n e env).run m = (.ok (.object o c), m')) :
    ∃ cs log, Populated (Visited fuel (.start sink input now clock) entries) cs m' ∧
      Sets (Visited fuel (.start sink input now clock) entries) (Session.start sink input now clock).machine log m' ∧
      cs[o]? = some c := by
  obtain ⟨cs, log, hpopulated, hlog, hfit⟩ := visited_fit hv
  obtain ⟨cs', hsince, hobject⟩ := (handlesAt (visited_closed fuel _ entries) (fun _ h => h) n
    (.evaluate e env) m cs hv hpopulated hfit).of_run hrun
  obtain ⟨log', hlog'⟩ := hsince.sets
  exact ⟨cs', _, hsince.populated, hlog.trans hlog', hobject⟩

/-- **Instances are stores of their own over finite chains of classes.**

    On every machine of a session, each instance has one class, and is proper. So is the instance that
    the object of a property comes to, and the property is what the instance gives. Setting a name sets
    what that instance gives for it, and nothing else that any instance gives. No call at all, be it a
    declaration or an assignment of the name of a class, changes what an instance gives for a name, unless
    it leads to an expression that sets the name on that instance. -/
theorem instances_are_stores_of_their_own (fuel : Nat) (sink : Sink) (input : Input) (now : Instant)
    (clock : Clock) (entries : List Entry) :
    let s := Session.start sink input now clock
    let H := Visited fuel s entries
    (∀ m, Heap fuel s entries m → ∃ cs : List Class, m.store.objects.size = cs.length ∧
      (∀ o c, m.store.Holds (.object o c) → cs[o]? = some c) ∧
      ∀ o c, cs[o]? = some c → ProperInstance H s.machine m o c) ∧
    (∀ n object name env m o c m', H ⟨n + 1, .evaluate (.get object name) env, m⟩ →
      (evaluate n object env).run m = (.ok (.object o c), m') →
        ProperInstance H s.machine m' o c ∧ (∀ d, m'.store.Holds (.object o d) → d = c) ∧
        (evaluate (n + 1) (.get object name) env).run m = (property o c name).run m') ∧
    (∀ n object name value env m o c m₁ v m₂,
      H ⟨n + 1, .evaluate (.set object name value) env, m⟩ →
      (evaluate n object env).run m = (.ok (.object o c), m₁) →
      (evaluate n value env).run m₁ = (.ok v, m₂) →
        ∃ m', (evaluate (n + 1) (.set object name value) env).run m = (.ok v, m') ∧
        (property o c name).run m' = (.ok v, m') ∧
        ∀ q d t, ¬ (q = o ∧ t.lexeme = name.lexeme) →
          SameAnswer q d ((property q d t).run m₂) ((property q d t).run m')) ∧
    ∀ n c m, H ⟨n, c, m⟩ → ∀ o d name,
      (∀ u w m₁, Leads ⟨n, c, m⟩ u → SetsField u w m₁ → ¬ (w.object = o ∧ w.name = name.lexeme)) →
        SameAnswer o d ((property o d name).run m) ((property o d name).run (machineAfter n m c)) := by
  intro s H
  refine ⟨fun m hm => ?_, fun n object name env m o c m' hv hrun => ?_,
    fun n object name value env m o c m₁ v m₂ hv ho hvalue => ?_, fun n c m hv o d name hnone => ?_⟩
  · obtain ⟨cs, log, hpopulated, hlog⟩ := hm.kept
    exact ⟨cs, hpopulated.size, fun o c => hpopulated.holds (.object o c),
      fun o c hc => hpopulated.proper hlog rfl hc⟩
  · obtain ⟨cs, log, hpopulated, hlog, hc⟩ := evaluated_object (hv.makes .getObject) hrun
    refine ⟨hpopulated.proper hlog rfl hc, fun d hd => ?_, run_bind_ok hrun⟩
    exact Option.some.inj ((hpopulated.holds _ hd).symm.trans hc)
  · obtain ⟨cs, log, hpopulated, hlog, hc⟩ := evaluated_object (hv.makes .setObject) ho
    obtain ⟨cs', hsince, -⟩ := (handlesAt (visited_closed fuel s entries) (fun _ h => h) n
      (.evaluate value env) m₁ cs (hv.makes (.setValue ho)) hpopulated trivial).of_run hvalue
    have hsize : o < m₂.store.objects.size := by
      rw [hsince.populated.size]
      exact Nat.lt_of_lt_of_le (List.getElem?_eq_some_iff.mp hc).1 hsince.classes.length_le
    let m' : Machine := { m₂ with store := m₂.store.setField o name.lexeme v }
    have hfields : ∀ q x, (m'.store.fields q).find? x
        = if o = q ∧ name.lexeme = x then some v else (m₂.store.fields q).find? x := by
      intro q x
      show ((m₂.store.setField o name.lexeme v).fields q).find? x = _
      rw [Store.fields_setField]
      by_cases hq : o = q
      · subst hq
        rw [if_pos ⟨rfl, hsize⟩, Bindings.find?_put]
        simp
      · rw [if_neg fun h => hq h.1, if_neg fun h => hq h.1]
    refine ⟨m', (run_bind_ok ho).trans (run_bind_ok hvalue), ?_, fun q d t hne => ?_⟩
    · rw [run_property, hfields, if_pos ⟨rfl, rfl⟩]
      rfl
    · refine property_same d ?_
      rw [hfields, if_neg fun h => hne ⟨h.1.symm, h.2.symm⟩]
  · exact property_same d (find?_machineAfter hv hnone)

/-- A field in the place of a method: the method can no longer be got from the instance. -/
theorem instances_are_stores_of_their_own_shadowed :
    let source := "class A\x7bm()\x7b\x7d\x7d var a=A(); a.m=nil; a.m;"
    let s := Session.start .unlimited (.ofBytes []) 0
    let H := Visited 6 s [.file source]
    let word (w : String) (column : Nat) : Token := ⟨.identifier, w, ⟨1, column⟩⟩
    let object (id column : Nat) : Expr := .read ⟨⟨id⟩, word "a" column⟩
    ∃ c m₁ m₂ m₃ m₄,
      H ⟨5, .evaluate (.set (object 1 27) (word "m" 29) (.literal .nil)) Store.globals, m₁⟩ ∧
      (evaluate 5 (.set (object 1 27) (word "m" 29) (.literal .nil)) Store.globals).run m₁
        = (.ok .nil, m₂) ∧
      (property 0 c (word "m" 29)).run m₂ = (.ok .nil, m₂) ∧
      H ⟨5, .evaluate (.get (object 2 36) (word "m" 38)) Store.globals, m₃⟩ ∧
      (evaluate 4 (object 2 36) Store.globals).run m₃ = (.ok (.object 0 c), m₄) ∧
      ProperInstance H s.machine m₄ 0 c ∧
      (evaluate 5 (.get (object 2 36) (word "m" 38)) Store.globals).run m₃
        = (property 0 c (word "m" 38)).run m₄ ∧
      SameAnswer 0 c ((property 0 c (word "m" 38)).run m₃) ((property 0 c (word "m" 38)).run
        (machineAfter 4 m₃ (.evaluate (object 2 36) Store.globals))) := by
  intro source s H word object
  let set : Expr := .set (object 1 27) (word "m" 29) (.literal .nil)
  let get : Expr := .get (object 2 36) (word "m" 38)
  let front : List Stmt := [.classDecl (word "A" 7) none [.mk (word "m" 9) (.mk [] [])],
    .varDecl (word "a" 20) (.call (.read ⟨⟨0⟩, word "A" 22⟩) ⟨.rightParen, ")", ⟨1, 24⟩⟩ [])]
  let c : Class := .mk 0 "A" none [("m", ⟨some "m", .mk [] [], [0], false⟩)]
  let m (b fields : Bindings Value) : Machine :=
    ⟨⟨#[nativeBindings ++ b], #[fields], 1⟩, ⟨#[]⟩, .unlimited, .ofBytes [], 0, .steady⟩
  let b : Bindings Value := [("A", .ofClass c), ("a", .object 0 c)]
  -- the session after the front end, and after the class and the instance
  have haccept : s.accept source = (⟨⟨⟨#[nativeBindings], #[], 0⟩, ⟨#[]⟩, .unlimited, .ofBytes [], 0, .steady⟩,
      3, .empty⟩, some (front ++ .expr set :: [.expr get])) := by cbv
  have hfront : (runAll 6 front).run ⟨⟨#[nativeBindings], #[], 0⟩, ⟨#[]⟩, .unlimited, .ofBytes [], 0, .steady⟩
      = (.ok (), m b []) := by cbv
  have hboth : (runAll 6 (front ++ [.expr set])).run
      ⟨⟨#[nativeBindings], #[], 0⟩, ⟨#[]⟩, .unlimited, .ofBytes [], 0, .steady⟩
      = (.ok (), m b [("m", .nil)]) := by cbv
  have hset := (Visited.begins (show [Entry.file source] = [] ++ _ :: [] from rfl)
    (.file haccept hfront)).makes .expression
  rw [show front ++ .expr set :: [.expr get] = (front ++ [.expr set]) ++ .expr get :: [] from rfl]
    at haccept
  have hget := (Visited.begins (show [Entry.file source] = [] ++ _ :: [] from rfl)
    (.file haccept hboth)).makes .expression
  have hobject : ∀ id column fields, id = 1 ∨ id = 2 →
      (evaluate 4 (object id column) Store.globals).run (m b fields)
        = (.ok (.object 0 c), m b fields) := by
    rintro id column fields (rfl | rfl) <;> rfl
  have hvalue : (evaluate 4 (.literal .nil) Store.globals).run (m b []) = (.ok .nil, m b []) := rfl
  obtain ⟨-, hgets, hsets, hcalls⟩ :=
    instances_are_stores_of_their_own 6 .unlimited (.ofBytes []) 0 .steady [.file source]
  obtain ⟨m₂, hrun, hfield, -⟩ := hsets 4 (object 1 27) (word "m" 29) (.literal .nil) _ _ 0 c _ .nil _
    hset (hobject 1 27 _ (.inl rfl)) hvalue
  obtain ⟨hproper, -, hproperty⟩ :=
    hgets 4 (object 2 36) (word "m" 38) _ _ 0 c _ hget (hobject 2 36 _ (.inr rfl))
  refine ⟨c, _, m₂, _, _, hset, hrun, hfield, hget, hobject 2 36 _ (.inr rfl), hproper, hproperty,
    hcalls 4 _ _ (hget.makes .getObject) 0 c (word "m" 38) ?_⟩
  -- reading a variable leads to nothing else
  intro u w m₁ hleads hsets
  have hself : ∀ u, Leads ⟨4, .evaluate (object 2 36) Store.globals, m b [("m", .nil)]⟩ u →
      u.call = .evaluate (object 2 36) Store.globals := by
    intro u hu
    induction hu with
    | refl => rfl
    | @makes n c m c' m' _ hm ih =>
      obtain rfl : c = .evaluate (object 2 36) Store.globals := ih
      cases hm
  cases hsets
  cases hself _ hleads

end

end Lox
