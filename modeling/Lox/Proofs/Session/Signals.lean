import Lox.Proofs.Machine.Signals
import Lox.Proofs.Session.Safety

/-!
# Signals stay within their target

No way out of a loop or a function leads further than it should.

* `Ends ok`: a run of statements ends with a signal that is `ok`, or with an error of the program.
* `top_ends`, `body_ends`, `initializer_returns`: what statements at the top, the statements of a
  function, and the returns of an initializer come to.
* `handed_to_loop`: a signal for a loop comes from the body of one, and the innermost loop takes it.
* `signals_stay`: **statements at the top finish normally**, functions finish normally or return,
  initializers return nothing, and loops take the signals for them.
-/

namespace Lox

variable {fuel : Nat} {s : Session} {entries : List Entry} {program : List Stmt}

/-! ## 1. Where visited statements stand -/

/-- A program that was let through was parsed, so its ways out of loops stand in loops. -/
theorem confined_of_accept {source : String} {s' : Session}
    (h : s.accept source = (s', some program)) : stmtsConfined program false := by
  obtain ⟨herrors, rfl⟩ := parsed_of_accept h
  exact Syntax.parse_confined herrors

theorem Accepted.confined (h : Accepted fuel s entries program) : stmtsConfined program false := by
  obtain ⟨_, _, _, _, _, -, -, haccept⟩ := h
  exact confined_of_accept haccept

/-- **The statements of a function that is called** stand in a function, outside of all loops, and
    those of an initializer in an initializer. -/
theorem body_stands (h : Sound (worldOf fuel s entries) s) {n : Nat} {g : Closure}
    {args : List Value} {m : Machine} (hv : Visited fuel s entries ⟨n, .invoke g args, m⟩) :
    ∃ program f, ObeysRules program ∧ (∀ t ∈ g.code.body, Stands program f false t) ∧
      (g.isInitializer = true → f = .initializer) := by
  obtain ⟨k, -, hc⟩ := visited_ok h hv
  obtain ⟨⟨_, program, p, -, hp, hinit, -⟩, -, -⟩ := hc
  exact ⟨program, p.ctx.function, hp.loaded.rules,
    Stands.body hp.occurs (hp.occurs.confined (Accepted.confined hp.accepted)), hinit⟩

/-- A statement that a loop starts with. -/
theorem loopStart_stands (h : Sound (worldOf fuel s entries) s) {n : Nat} {start body : Stmt}
    {condition : Expr} {increment : Option Expr} {env : Env} {m : Machine}
    (hv : Visited fuel s entries
      ⟨n, .execute (.forLoop (some start) condition increment body) env, m⟩) :
    ∃ program f, ObeysRules program ∧ Stands program f false start := by
  obtain ⟨k, -, program, p, hp⟩ := visited_ok h hv
  obtain ⟨l, hconfined⟩ := hp.occurs.confined (Accepted.confined hp.accepted)
  have hstands : Stands program p.ctx.function l (.forLoop (some start) condition increment body) :=
    ⟨⟨p, hp.occurs, rfl⟩, hconfined⟩
  exact ⟨program, p.ctx.function, hp.loaded.rules, hstands.loopStart⟩

/-- A statement at the top. -/
theorem top_stands (h : Sound (worldOf fuel s entries) s) {before later : List Entry}
    {entry : Entry} (heq : entries = before ++ entry :: later) {c : Call} {m : Machine}
    (hb : Begins fuel (s.after fuel before) entry c m) :
    ∃ program, ObeysRules program ∧ c.Stands program .none false := by
  have hsound := after_sound h heq
  cases hb with
  | @file source s' first statement rest m haccept =>
    have hloaded := (accept_sound source hsound).2 _ (by rw [haccept])
    exact ⟨_, hloaded.rules, .top (confined_of_accept haccept) (by simp)⟩
  | @line source s' first statement rest haccept =>
    have hloaded := (accept_sound source hsound).2 _ (by rw [haccept])
    have hstands : Stands _ .none false statement :=
      .top (confined_of_accept haccept) (by simp : statement ∈ first ++ statement :: rest)
    refine ⟨_, hloaded.rules, ?_⟩
    cases statement with
    | expr e => trivial
    | _ => exact hstands

/-! ## 2. How runs of statements end -/

/-- **A run of statements ends** with a signal that is `ok`, or with an error of the program, if there
    is fuel enough. No fault ends it. -/
inductive Ends (ok : Signal → Prop) : Except Stop Signal → Prop where
  | signal {r} (h : ok r) : Ends ok (.ok r)
  | error {e} : Ends ok (.error (.error e))
  | starved : Ends ok (.error .starved)

theorem Safe.ends {w : World} {k : Nat} {m : Machine} {x : Run Signal}
    {fine : Machine → Signal → Prop} {ok : Signal → Prop} (h : Safe w k m x fine)
    (hok : ∀ r m', x.run m = (.ok r, m') → ok r) : Ends ok (x.run m).1 := by
  cases hrun : x.run m with
  | mk r m' =>
    cases r with
    | ok r => exact .signal (hok r m' hrun)
    | error e =>
      cases e with
      | error e => exact .error
      | starved => exact .starved
      | fault f => exact absurd (congrArg Prod.fst hrun) (h.fault f)

/-- **A statement at the top finishes normally**, or fails. -/
theorem top_ends (h : Sound (worldOf fuel s entries) s) {before later : List Entry} {entry : Entry}
    (heq : entries = before ++ entry :: later) {statement : Stmt} {m : Machine}
    (hb : Begins fuel (s.after fuel before) entry (.execute statement Store.globals) m) :
    Ends (· = .normal) ((execute fuel statement Store.globals).run m).1 := by
  have hvisited : Visited fuel s entries ⟨fuel, .execute statement Store.globals, m⟩ :=
    .begins heq hb
  obtain ⟨program, hrules, hstands⟩ := top_stands h heq hb
  obtain ⟨k, hgood, hc⟩ := visited_ok h hvisited
  have hsafe := safeAt (worldOf_closed fuel s entries) fuel (.execute statement Store.globals) m
    hvisited hgood hc
  refine Safe.ends hsafe fun r m' hrun => ?_
  have hfinishes : Finishes fuel (.execute statement Store.globals) m r m' := hrun
  exact (hfinishes.allowed hrules hstands).top

section Bodies

variable {n : Nat} {g : Closure} {args : List Value} {m m₁ : Machine} {env : Env}

/-- **The statements of a function finish normally** or return, those of an initializer nothing. -/
theorem body_ends (h : Sound (worldOf fuel s entries) s)
    (hv : Visited fuel s entries ⟨n + 1, .invoke g args, m⟩)
    (hm : Makes n (.invoke g args) m (.executeAll g.code.body env) m₁) :
    Ends (fun r => r = .normal ∨ ∃ u, r = .ret u ∧ (g.isInitializer = true → u = .nil))
      ((executeAll n g.code.body env).run m₁).1 := by
  have hvisited := hv.makes hm
  obtain ⟨program, f, hrules, hstands, hinit⟩ := body_stands h hv
  obtain ⟨k, hgood, hc⟩ := visited_ok h hvisited
  have hsafe := safeAt (worldOf_closed fuel s entries) n (.executeAll g.code.body env) m₁
    hvisited hgood hc
  refine Safe.ends hsafe fun r m' hrun => ?_
  have hfinishes : Finishes n (.executeAll g.code.body env) m₁ r m' := hrun
  rcases (hfinishes.allowed hrules hstands).body with hnormal | ⟨u, hret, hnil⟩
  · exact .inl hnormal
  · exact .inr ⟨u, hret, fun hg => hnil (hinit hg)⟩

/-- **A return of an initializer** has no value, wherever in the activation it is run. -/
theorem initializer_returns (h : Sound (worldOf fuel s entries) s)
    (hv : Visited fuel s entries ⟨n, .invoke g args, m⟩) (hg : g.isInitializer = true) {j k : Nat}
    {statement : Stmt} {inner : Env} {m₂ m₃ : Machine} {u : Value}
    (halong : Along Call.runsStatements ⟨j, .executeAll g.code.body env, m₁⟩
      ⟨k, .execute statement inner, m₂⟩)
    (hrun : (execute k statement inner).run m₂ = (.ok (.ret u), m₃)) : u = .nil := by
  obtain ⟨program, f, hrules, hstands, hinit⟩ := body_stands h hv
  obtain ⟨l, hc⟩ := halong.stands rfl hstands
  have hfinishes : Finishes k (.execute statement inner) m₂ (.ret u) m₃ := hrun
  exact (hfinishes.allowed hrules hc).2 (hinit hg)

end Bodies

/-! ## 3. Signals for loops -/

/-- **A signal for a loop comes from the body of one**, by statements of the same turn alone, and that
    loop takes it. -/
theorem handed_to_loop (h : Sound (worldOf fuel s entries) s) {v : Visit} {r : Signal}
    {m' : Machine} (hv : Visited fuel s entries v) (hstays : v.call.staysInTurn = true)
    (hfinishes : Finishes v.fuel v.call v.machine r m') (hr : r.forLoop = true) :
    ∃ k condition increment body env m₀ m₁,
      Visited fuel s entries ⟨k + 1, .turns condition increment body env, m₀⟩ ∧
      Makes k (.turns condition increment body env) m₀ (.execute body env) m₁ ∧
      Along Call.staysInTurn ⟨k, .execute body env, m₁⟩ v ∧
      (execute k body env).run m₁ = (.ok r, m') ∧
      Takes k condition increment body env m₀ r m' := by
  -- where no loop is around, the signal is not allowed
  have refuted : ∀ {program f n c m}, ObeysRules program → c.Stands program f false →
      Finishes n c m r m' → False := by
    intro program f n c m hrules hc hfin
    rw [(hfin.allowed hrules hc).outside] at hr
    cases hr
  induction hv with
  | begins heq hb =>
    obtain ⟨program, hrules, hstands⟩ := top_stands h heq hb
    exact (refuted hrules hstands hfinishes).elim
  | @makes n c m c' m₁ hvisited hm ih =>
    cases hm.goes hstays hfinishes hr with
    | on hfrom hfin =>
      obtain ⟨k, condition, increment, body, env, m₀, m₂, hturns, hturn, halong, htaken⟩ :=
        ih hfrom hfin
      exact ⟨k, condition, increment, body, env, m₀, m₂, hturns, hturn, .makes halong hm hstays,
        htaken⟩
    | taken htakes => exact ⟨n, _, _, _, _, m, m₁, hvisited, hm, .refl, hfinishes, htakes⟩
    | body =>
      obtain ⟨program, f, hrules, hstands, -⟩ := body_stands h hvisited
      exact (refuted (c := .executeAll _ _) hrules hstands hfinishes).elim
    | start =>
      obtain ⟨program, f, hrules, hstands⟩ := loopStart_stands h hvisited
      exact (refuted (c := .execute _ _) hrules hstands hfinishes).elim

/-! ## 4. Sessions -/

/-- **In every session**, and as far as there is fuel:
    a statement at the top finishes normally or fails;
    the statements of a function finish normally or return, those of an initializer without a value,
    wherever in the activation the return stands;
    what finishes with a signal for a loop is run by a turn of a loop in the same activation, with no
    other loop between. The body of that loop finishes with the same signal, and the loop takes it. -/
theorem signals_stay (fuel : Nat) (sink : Sink) (input : Input) (now : Instant) (clock : Clock)
    (entries : List Entry) :
    let s := Session.start sink input now clock
    (∀ before entry later statement m, entries = before ++ entry :: later →
      Begins fuel (s.after fuel before) entry (.execute statement Store.globals) m →
        Ends (· = .normal) ((execute fuel statement Store.globals).run m).1) ∧
    (∀ n g args m env m₁, Visited fuel s entries ⟨n + 1, .invoke g args, m⟩ →
      Makes n (.invoke g args) m (.executeAll g.code.body env) m₁ →
        Ends (fun r => r = .normal ∨ ∃ u, r = .ret u ∧ (g.isInitializer = true → u = .nil))
          ((executeAll n g.code.body env).run m₁).1) ∧
    (∀ n g args m env m₁ k statement inner m₂ u m₃,
      Visited fuel s entries ⟨n + 1, .invoke g args, m⟩ → g.isInitializer = true →
      Makes n (.invoke g args) m (.executeAll g.code.body env) m₁ →
      Along Call.runsStatements ⟨n, .executeAll g.code.body env, m₁⟩
        ⟨k, .execute statement inner, m₂⟩ →
      (execute k statement inner).run m₂ = (.ok (.ret u), m₃) → u = .nil) ∧
    ∀ n statement env m r m', Visited fuel s entries ⟨n, .execute statement env, m⟩ →
      (execute n statement env).run m = (.ok r, m') → r.forLoop = true →
        ∃ k condition increment body outer m₀ m₁,
          Visited fuel s entries ⟨k + 1, .turns condition increment body outer, m₀⟩ ∧
          Makes k (.turns condition increment body outer) m₀ (.execute body outer) m₁ ∧
          Along Call.staysInTurn ⟨k, .execute body outer, m₁⟩ ⟨n, .execute statement env, m⟩ ∧
          (execute k body outer).run m₁ = (.ok r, m') ∧
          Takes k condition increment body outer m₀ r m' := by
  intro s
  have hsound := start_sound (worldOf fuel s entries) sink input now clock
  refine ⟨?_, ?_, ?_, ?_⟩
  · intro before entry later statement m heq hb
    exact top_ends hsound heq hb
  · intro n g args m env m₁ hv hm
    exact body_ends hsound hv hm
  · intro n g args m env m₁ k statement inner m₂ u m₃ hv hg _ halong hrun
    exact initializer_returns hsound hv hg halong hrun
  · intro n statement env m r m' hv hrun hr
    exact handed_to_loop hsound hv rfl hrun hr

/-- An initializer leaves a loop and returns. -/
theorem signals_stay_initializer :
    let source := "class A\x7binit()\x7bfor(;;)break;return;\x7d\x7dA();"
    let s := Session.start .unlimited (.ofBytes []) 0
    ∃ n g args m env m₁ k t env' m₂ k' t' env'' m₃,
      Visited 12 s [.line source] ⟨n + 1, .invoke g args, m⟩ ∧ g.isInitializer = true ∧
      Makes n (.invoke g args) m (.executeAll g.code.body env) m₁ ∧
      Ends (fun r => r = .normal ∨ ∃ u, r = .ret u ∧ (g.isInitializer = true → u = .nil))
        ((executeAll n g.code.body env).run m₁).1 ∧
      -- the loop is left
      Visited 12 s [.line source] ⟨k, .execute t env', m₂⟩ ∧
      (execute k t env').run m₂ = (.ok .leave, m₂) ∧
      (∃ j condition increment body outer m₀,
        (turns (j + 1) condition increment body outer).run m₀ = (.ok .normal, m₂)) ∧
      -- and the function
      Along Call.runsStatements ⟨n, .executeAll g.code.body env, m₁⟩ ⟨k', .execute t' env'', m₃⟩ ∧
      ∃ u m₄, (execute k' t' env'').run m₃ = (.ok (.ret u), m₄) ∧ u = .nil := by
  intro source s
  let name (w : String) (column : Nat) : Token := ⟨.identifier, w, ⟨1, column⟩⟩
  let leave : Stmt := .leave ⟨.kwBreak, "break", ⟨1, 27⟩⟩
  let loop : Stmt := .forLoop none (.literal (.bool true)) none leave
  let ret : Stmt := .ret ⟨.kwReturn, "return", ⟨1, 34⟩⟩ none
  let code : Code := .mk [] [loop, ret]
  let classes : List Stmt := [.classDecl (name "A" 7) none [.mk (name "init" 12) code]]
  let call : Expr := .call (.read ⟨⟨0⟩, name "A" 38⟩) ⟨.rightParen, ")", ⟨1, 40⟩⟩ []
  let a : Class := .mk 0 "A" none [("init", ⟨some "init", code, [0], true⟩)]
  let m (store : Store) : Machine := ⟨store, ⟨#[]⟩, .unlimited, .ofBytes [], 0, .steady⟩
  let frames : Array (Bindings Value) := #[nativeBindings ++ [("A", .ofClass a)]]
  -- the session after the front end, and after the class
  have haccept : s.accept source =
      (⟨m ⟨#[nativeBindings], #[], 0⟩, 1, .empty⟩, some (classes ++ .expr call :: [])) := by cbv
  have hclasses : Session.runStatements 12 ⟨m ⟨#[nativeBindings], #[], 0⟩, 1, .empty⟩ classes
      = ⟨⟨m ⟨frames, #[], 1⟩, 1, .empty⟩, none⟩ := by cbv
  have hcallee : (evaluate 11 (.read ⟨⟨0⟩, name "A" 38⟩) Store.globals).run (m ⟨frames, #[], 1⟩)
      = (.ok (.ofClass a), m ⟨frames, #[], 1⟩) := by cbv
  have hbegins := Begins.line haccept (congrArg Step.halt hclasses)
  rw [hclasses] at hbegins
  have hcall := Visited.begins (show [Entry.line source] = [] ++ _ :: [] from rfl) hbegins
  let init : Closure := ⟨some "init", code, [1, 0], true⟩
  let bound : Array (Bindings Value) := frames.push [(thisName, .object 0 a)]
  have hinvoke : Visited 12 s [.line source] ⟨10, .invoke init [], m ⟨bound, #[[]], 1⟩⟩ :=
    (hcall.makes (.applied hcallee rfl rfl)).makes (.initializer rfl rfl rfl)
  have hmade : Makes 9 (.invoke init []) (m ⟨bound, #[[]], 1⟩) (.executeAll code.body [2, 1, 0])
      (m ⟨bound.push [], #[[]], 1⟩) := .body rfl
  have hturns := ((hinvoke.makes hmade).makes .firstStatement).makes (.bareTurns rfl)
  have hleave := hturns.makes (.turnBody rfl rfl)
  have hreturn : Along Call.runsStatements
      ⟨9, .executeAll code.body [2, 1, 0], m ⟨bound.push [], #[[]], 1⟩⟩ ⟨7, .execute ret [2, 1, 0], _⟩ :=
    .makes (.makes .refl (.otherStatements rfl) rfl) .firstStatement rfl
  obtain ⟨-, hbodies, hreturns, hloops⟩ :=
    signals_stay 12 .unlimited (.ofBytes []) 0 .steady [.line source]
  obtain ⟨j, condition, increment, body, outer, m₀, _, -, -, -, -, htakes⟩ :=
    hloops _ _ _ _ .leave _ hleave rfl rfl
  exact ⟨9, init, [], _, _, _, 6, leave, _, _, 7, ret, _, _, hinvoke, rfl, hmade,
    hbodies _ _ _ _ _ _ hinvoke hmade, hleave, rfl,
    ⟨j, condition, increment, body, outer, m₀, htakes.leave rfl⟩, hreturn, .nil, _, rfl,
    hreturns _ _ _ _ _ _ _ _ _ _ _ _ hinvoke rfl hmade hreturn rfl⟩

end Lox
