import Lox.Proofs.Machine.Calls
import Lox.Proofs.Machine.Lookup
import Lox.Proofs.Scope.Loops
import Lox.Proofs.Scope.Rules

/-!
# How statements finish

A statement finishes with no other signals than its place allows.

* `Signal.Allowed f l`: the signals that are allowed in a function of the kind `f`, in the body of a
  loop of the function or not.
* `Finishes.allowed`: **a call finishes with a signal that is allowed** where its statements stand.
* `Along`: the calls that a call makes within one activation of a function, or within one turn of a
  loop.
* `Makes.goes`: a signal for a loop is handed on until the turns of a loop take it.
-/

namespace Lox

variable {program : List Stmt} {f : FunctionContext} {l : Bool} {n : Nat} {m m' m₁ : Machine}
  {c c' : Call} {r : Signal}

/-! ## 1. Allowed signals -/

/-- **The signals that are allowed** in a function of a kind, in the body of a loop of it or not. -/
def Signal.Allowed (f : FunctionContext) (inLoop : Bool) : Signal → Prop
  | .normal => True
  | .ret v => f ≠ .none ∧ (f = .initializer → v = .nil)
  | .leave => inLoop = true
  | .next => inLoop = true

/-- Whether a signal is for a loop. -/
def Signal.forLoop : Signal → Bool
  | .leave | .next => true
  | .normal | .ret _ => false

theorem Signal.Allowed.outside (h : r.Allowed f false) : r.forLoop = false := by
  cases r with
  | normal | ret => rfl
  | leave | next => cases h

/-- Outside of all functions and loops. -/
theorem Signal.Allowed.top (h : r.Allowed .none false) : r = .normal := by
  cases r with
  | normal => rfl
  | ret => exact absurd rfl h.1
  | leave | next => cases h

/-- Outside of the loops of a function. -/
theorem Signal.Allowed.body (h : r.Allowed f false) :
    r = .normal ∨ ∃ v, r = .ret v ∧ (f = .initializer → v = .nil) := by
  cases r with
  | normal => exact .inl rfl
  | ret v => exact .inr ⟨v, rfl, h.2⟩
  | leave | next => cases h

/-! ## 2. Where statements stand -/

/-- A statement stands in a function of a kind, and may stand in the body of a loop of it or not. -/
structure Stands (program : List Stmt) (f : FunctionContext) (l : Bool) (s : Stmt) : Prop where
  occurs : ∃ p, Occurs program (.stmt s) p ∧ p.ctx.function = f
  confined : s.Confined l

namespace Stands

theorem top (hc : stmtsConfined program false) {s : Stmt} (h : s ∈ program) :
    Stands program .none false s :=
  ⟨⟨.top, .top h, rfl⟩, stmtsConfined_iff.mp hc s h⟩

/-- The statements of a function are outside all loops. -/
theorem body {code : Code} {p : Place} (h : Occurs program (.code code) p) (hc : code.Confined) :
    ∀ s ∈ code.body, Stands program p.ctx.function false s := by
  intro s hs
  obtain ⟨params, body⟩ := code
  obtain ⟨before, after, rfl⟩ := List.append_of_mem hs
  exact ⟨⟨_, .inside h .body, rfl⟩, stmtsConfined_iff.mp hc s hs⟩

/-- A part in the same function. -/
theorem inside {s s' : Stmt} {l' : Bool} (h : Stands program f l s)
    (hi : ∀ p, ∃ q, Inside (.stmt s) p (.stmt s') q ∧ q.ctx = p.ctx) (hc : s'.Confined l') :
    Stands program f l' s' := by
  obtain ⟨⟨p, ho, hp⟩, -⟩ := h
  obtain ⟨q, hq, hctx⟩ := hi p
  exact ⟨⟨q, .inside ho hq, by rw [hctx, hp]⟩, hc⟩

theorem branchYes {condition : Expr} {yes : Stmt} {no : Option Stmt}
    (h : Stands program f l (.branch condition yes no)) : Stands program f l yes :=
  h.inside (fun p => ⟨p, .branchYes, rfl⟩) h.confined.2.1

theorem branchNo {condition : Expr} {yes no : Stmt}
    (h : Stands program f l (.branch condition yes (some no))) : Stands program f l no :=
  h.inside (fun p => ⟨p, .branchNo, rfl⟩) h.confined.2.2

theorem whileBody {condition : Expr} {body : Stmt}
    (h : Stands program f l (.whileLoop condition body)) : Stands program f true body :=
  h.inside (fun p => ⟨p, .whileBody, rfl⟩) h.confined.2

section

variable {init : Option Stmt} {start body : Stmt} {condition : Expr} {increment : Option Expr}

theorem loopStart (h : Stands program f l (.forLoop (some start) condition increment body)) :
    Stands program f false start :=
  h.inside (fun _ => ⟨_, .loopStart, rfl⟩) h.confined.1

theorem loopBody (h : Stands program f l (.forLoop init condition increment body)) :
    Stands program f true body :=
  h.inside (fun _ => ⟨_, .loopBody, rfl⟩) h.confined.2.2.2

end

theorem block {body : List Stmt} (h : Stands program f l (.block body)) :
    ∀ s ∈ body, Stands program f l s := by
  intro s hs
  have hc : s.Confined l := stmtsConfined_iff.mp h.confined s hs
  obtain ⟨before, after, rfl⟩ := List.append_of_mem hs
  exact h.inside (fun _ => ⟨_, .block, rfl⟩) hc

end Stands

/-- The statements of a call stand in a function of a kind. -/
def Call.Stands (program : List Stmt) (f : FunctionContext) (l : Bool) : Call → Prop
  | .execute s _ => Lox.Stands program f l s
  | .executeAll ss _ => ∀ s ∈ ss, Lox.Stands program f l s
  | .turns _ _ body _ => Lox.Stands program f true body
  | .evaluate _ _ | .evaluateAll _ _ | .apply _ _ _ | .invoke _ _ => True

/-! ## 3. Signals of calls -/

/-- A call that runs statements finishes with a signal. -/
def Finishes (n : Nat) : Call → Machine → Signal → Machine → Prop
  | .execute s env, m, r, m' => (execute n s env).run m = (.ok r, m')
  | .executeAll ss env, m, r, m' => (executeAll n ss env).run m = (.ok r, m')
  | .turns condition increment body env, m, r, m' =>
    (turns n condition increment body env).run m = (.ok r, m')
  | .evaluate _ _, _, _, _ | .evaluateAll _ _, _, _, _ | .apply _ _ _, _, _, _
  | .invoke _ _, _, _, _ => False

/-- All calls with the fuel `n` finish with allowed signals. -/
def AllowedAt (program : List Stmt) (f : FunctionContext) (n : Nat) : Prop :=
  ∀ c l m r m', c.Stands program f l → Finishes n c m r m' → r.Allowed f l

theorem execute_allowed (hrules : ObeysRules program) (ih : AllowedAt program f n) {s : Stmt}
    {env : Env} (hs : Stands program f l s) (h : (execute (n + 1) s env).run m = (.ok r, m')) :
    r.Allowed f l := by
  cases s with
  | expr e =>
    obtain ⟨_, _, -, hreturn⟩ := ok_of_run_bind h
    cases hreturn
    trivial
  | varDecl name e =>
    obtain ⟨_, _, -, h⟩ := ok_of_run_bind h
    obtain ⟨_, _, -, hreturn⟩ := ok_of_run_bind h
    cases hreturn
    trivial
  | funDecl decl =>
    obtain ⟨name, code⟩ := decl
    obtain ⟨_, _, -, h⟩ := ok_of_run_bind h
    obtain ⟨_, _, -, hreturn⟩ := ok_of_run_bind h
    cases hreturn
    trivial
  | classDecl name superclass methods =>
    obtain ⟨_, _, -, hreturn⟩ := ok_of_run_bind h
    cases hreturn
    trivial
  | branch condition yes no =>
    obtain ⟨a, m₁, -, h⟩ := ok_of_run_bind h
    by_cases ha : a.isTruthy = true
    · rw [if_pos ha] at h
      exact ih (.execute yes env) l m₁ r m' hs.branchYes h
    · rw [if_neg ha] at h
      cases no with
      | none =>
        cases h
        trivial
      | some no => exact ih (.execute no env) l m₁ r m' hs.branchNo h
  | whileLoop condition body => exact ih (.turns condition none body env) l m r m' hs.whileBody h
  | forLoop init condition increment body =>
    obtain ⟨inner, m₁, -, h⟩ := ok_of_run_bind h
    cases init with
    | none => exact ih (.turns condition increment body inner) l m₁ r m' hs.loopBody h
    | some start =>
      obtain ⟨_, m₂, -, h⟩ := ok_of_run_bind h
      exact ih (.turns condition increment body inner) l m₂ r m' hs.loopBody h
  | block body =>
    obtain ⟨inner, m₁, -, h⟩ := ok_of_run_bind h
    exact ih (.executeAll body inner) l m₁ r m' hs.block h
  | ret keyword value =>
    obtain ⟨⟨p, ho, rfl⟩, -⟩ := hs
    obtain ⟨hfunction, hvalue⟩ := hrules.returns keyword value p ho
    cases value with
    | none =>
      cases h
      exact ⟨hfunction, fun _ => rfl⟩
    | some e =>
      obtain ⟨v, _, -, hreturn⟩ := ok_of_run_bind h
      cases hreturn
      exact ⟨hfunction, fun hinit => absurd hinit (hvalue rfl)⟩
  | leave keyword | next keyword =>
    cases h
    exact hs.confined

theorem executeAll_allowed (ih : AllowedAt program f n) {ss : List Stmt} {env : Env}
    (hs : ∀ s ∈ ss, Stands program f l s) (h : (executeAll (n + 1) ss env).run m = (.ok r, m')) :
    r.Allowed f l := by
  cases ss with
  | nil =>
    cases h
    trivial
  | cons s rest =>
    rw [List.forall_mem_cons] at hs
    obtain ⟨r₁, m₁, hfirst, h⟩ := ok_of_run_bind h
    have hallowed := ih (.execute s env) l m r₁ m₁ hs.1 hfirst
    cases r₁ with
    | normal => exact ih (.executeAll rest env) l m₁ r m' hs.2 h
    | ret | leave | next =>
      cases h
      exact hallowed

section Turns

variable {condition : Expr} {increment : Option Expr} {body : Stmt} {env : Env}

/-- What goes on with a loop takes turns of it. -/
theorem turns_of_goOn (h : (goOn n condition increment body env).run m = (.ok r, m')) :
    ∃ m₁, (turns n condition increment body env).run m₁ = (.ok r, m') := by
  cases increment with
  | none => exact ⟨m, h⟩
  | some e =>
    obtain ⟨_, m₁, -, h⟩ := ok_of_run_bind h
    exact ⟨m₁, h⟩

/-- **A loop takes the signals for loops**: it finishes, or goes on. -/
theorem run_turns {a : Value} {m₂ : Machine}
    (ha : (evaluate n condition env).run m = (.ok a, m₁)) (ht : a.isTruthy = true)
    (hbody : (execute n body env).run m₁ = (.ok r, m₂)) :
    (turns (n + 1) condition increment body env).run m = (match r with
      | .leave => return .normal
      | .ret v => return .ret v
      | .normal | .next => goOn n condition increment body env : Run Signal).run m₂ := by
  refine (run_bind_ok ha).trans ?_
  rw [if_pos ht]
  refine (run_bind_ok hbody).trans ?_
  cases r with
  | leave | ret => rfl
  | normal | next => cases increment <;> rfl

/-- **A loop finishes normally**, or with what a body of it returned. -/
theorem turns_result (h : (turns n condition increment body env).run m = (.ok r, m')) :
    r = .normal ∨ ∃ k m₁ m₂ v, k < n ∧ r = .ret v ∧ (execute k body env).run m₁ = (.ok r, m₂) := by
  induction n generalizing m with
  | zero => cases h
  | succ n ih =>
    obtain ⟨a, m₁, hcondition, hrest⟩ := ok_of_run_bind h
    by_cases ha : a.isTruthy = true
    · rw [if_pos ha] at hrest
      obtain ⟨r₁, m₂, hbody, -⟩ := ok_of_run_bind hrest
      rw [run_turns hcondition ha hbody] at h
      have hmore : (goOn n condition increment body env).run m₂ = (.ok r, m') → r = .normal ∨
          ∃ k m₁ m₂ v, k < n + 1 ∧ r = .ret v ∧ (execute k body env).run m₁ = (.ok r, m₂) := by
        intro hgo
        obtain ⟨m₃, hturns⟩ := turns_of_goOn hgo
        rcases ih hturns with hnormal | ⟨k, m₁, m₂, v, hk, hret⟩
        · exact .inl hnormal
        · exact .inr ⟨k, m₁, m₂, v, Nat.lt_succ_of_lt hk, hret⟩
      cases r₁ with
      | leave =>
        cases h
        exact .inl rfl
      | ret v =>
        cases h
        exact .inr ⟨n, m₁, m', v, Nat.lt_succ_self n, rfl, hbody⟩
      | normal | next => exact hmore h
    · rw [if_neg ha] at hrest
      cases hrest
      exact .inl rfl

theorem turns_allowed (ih : ∀ k < n, AllowedAt program f k) (hs : Stands program f true body)
    (h : (turns n condition increment body env).run m = (.ok r, m')) : r.Allowed f l := by
  rcases turns_result h with rfl | ⟨k, m₁, m₂, v, hk, rfl, hbody⟩
  · trivial
  · exact ih k hk (.execute body env) true m₁ _ m₂ hs hbody

/-- What a loop makes of a signal that its body finishes with. -/
structure Takes (n : Nat) (condition : Expr) (increment : Option Expr) (body : Stmt) (env : Env)
    (m : Machine) (r : Signal) (m' : Machine) : Prop where
  leave : r = .leave → (turns (n + 1) condition increment body env).run m = (.ok .normal, m')
  next : r = .next → (turns (n + 1) condition increment body env).run m
    = (goOn n condition increment body env).run m'
  outside : ∀ r' m'', (turns (n + 1) condition increment body env).run m = (.ok r', m'') →
    r'.forLoop = false

theorem takes {a : Value} {m₂ : Machine} (ha : (evaluate n condition env).run m = (.ok a, m₁))
    (ht : a.isTruthy = true) (hbody : (execute n body env).run m₁ = (.ok r, m₂)) :
    Takes n condition increment body env m r m₂ where
  leave hr := by
    subst hr
    exact run_turns ha ht hbody
  next hr := by
    subst hr
    exact run_turns ha ht hbody
  outside r' m'' h := by
    rcases turns_result h with rfl | ⟨_, _, _, v, -, rfl, -⟩ <;> rfl

end Turns

/-- **A call finishes with a signal that is allowed** where its statements stand. -/
theorem Finishes.allowed (hrules : ObeysRules program) (h : Finishes n c m r m')
    (hc : c.Stands program f l) : r.Allowed f l := by
  have hall : ∀ n, AllowedAt program f n := by
    intro n
    induction n using Nat.strong_induction_on with
    | _ n ih =>
      intro c l m r m' hc h
      cases c with
      | execute =>
        cases n with
        | zero => cases h
        | succ n => exact execute_allowed hrules (ih n (Nat.lt_succ_self n)) hc h
      | executeAll =>
        cases n with
        | zero => cases h
        | succ n => exact executeAll_allowed (ih n (Nat.lt_succ_self n)) hc h
      | turns => exact turns_allowed ih hc h
      | evaluate | evaluateAll | apply | invoke => cases h
  exact hall n c l m r m' hc h

/-! ## 4. Calls of one activation -/

/-- Whether a call runs statements. -/
def Call.runsStatements : Call → Bool
  | .execute _ _ | .executeAll _ _ | .turns _ _ _ _ => true
  | .evaluate _ _ | .evaluateAll _ _ | .apply _ _ _ | .invoke _ _ => false

/-- Whether a call runs statements and takes no turns of a loop. -/
def Call.staysInTurn : Call → Bool
  | .execute _ _ | .executeAll _ _ => true
  | .turns _ _ _ _ | .evaluate _ _ | .evaluateAll _ _ | .apply _ _ _ | .invoke _ _ => false

/-- **A visit makes another** by calls of a kind alone. -/
inductive Along (ok : Call → Bool) (u : Visit) : Visit → Prop where
  | refl : Along ok u u
  | makes {n : Nat} {c c' : Call} {m m' : Machine} (h : Along ok u ⟨n + 1, c, m⟩)
      (hm : Makes n c m c' m') (hc : ok c' = true) : Along ok u ⟨n, c', m'⟩

theorem Along.last {ok : Call → Bool} {u v : Visit} (h : Along ok u v) (hu : ok u.call = true) :
    ok v.call = true := by
  cases h with
  | refl => exact hu
  | makes _ _ hc => exact hc

/-- **The statements that a call makes** stand in the same function. -/
theorem Makes.stands (hm : Makes n c m c' m') (hc : c.Stands program f l)
    (hfrom : c.runsStatements = true) (hto : c'.runsStatements = true) :
    ∃ l', c'.Stands program f l' := by
  cases hm with
  | branchYes => exact ⟨l, hc.branchYes⟩
  | branchNo => exact ⟨l, hc.branchNo⟩
  | whileTurns => exact ⟨l, hc.whileBody⟩
  | loopStart => exact ⟨false, hc.loopStart⟩
  | loopTurns | bareTurns => exact ⟨l, hc.loopBody⟩
  | block => exact ⟨l, hc.block⟩
  | firstStatement => exact ⟨l, hc _ List.mem_cons_self⟩
  | otherStatements => exact ⟨l, fun s hs => hc s (List.mem_cons_of_mem _ hs)⟩
  | turnBody => exact ⟨true, hc⟩
  | nextTurn | nextBareTurn => exact ⟨l, hc⟩
  | body => cases hfrom
  | _ => cases hto

theorem Along.stands {u v : Visit} (h : Along Call.runsStatements u v)
    (hu : u.call.runsStatements = true) (hc : u.call.Stands program f l) :
    ∃ l', v.call.Stands program f l' := by
  induction h with
  | refl => exact ⟨l, hc⟩
  | makes h hm hto ih =>
    obtain ⟨l', hc'⟩ := ih
    exact hm.stands hc' (h.last hu) hto

/-! ## 5. Signals for loops -/

/-- **Where a signal for a loop goes** when one call made another, and that finished with it. -/
inductive Goes (n : Nat) (m : Machine) (r : Signal) (m' : Machine) : Call → Call → Prop where
  /-- The first call finishes with it too. -/
  | on {c c' : Call} (hc : c.staysInTurn = true) (h : Finishes (n + 1) c m r m') : Goes n m r m' c c'
  /-- The loop takes it. -/
  | taken {condition increment body env} (h : Takes n condition increment body env m r m') :
      Goes n m r m' (.turns condition increment body env) (.execute body env)
  /-- Nowhere, from the body of a function. -/
  | body {g args env} : Goes n m r m' (.invoke g args) (.executeAll g.code.body env)
  /-- Nowhere, from what a loop starts with. -/
  | start {start condition increment body env inner} :
      Goes n m r m' (.execute (.forLoop (some start) condition increment body) env)
        (.execute start inner)

/-- **A signal for a loop is handed on** until the turns of a loop take it, but for the bodies of
    functions and what loops start with. -/
theorem Makes.goes (hm : Makes n c m c' m₁) (hto : c'.staysInTurn = true)
    (h : Finishes n c' m₁ r m') (hr : r.forLoop = true) : Goes n m r m' c c' := by
  cases hm with
  | branchYes hcondition ha =>
    refine .on rfl ((run_bind_ok hcondition).trans ?_)
    rw [if_pos ha]
    exact h
  | branchNo hcondition ha =>
    refine .on rfl ((run_bind_ok hcondition).trans ?_)
    rw [if_neg (Bool.eq_false_iff.mp ha)]
    exact h
  | block hframe => exact .on rfl ((run_bind_ok hframe).trans h)
  | firstStatement =>
    refine .on rfl ((run_bind_ok h).trans ?_)
    cases r with
    | normal | ret => cases hr
    | leave | next => rfl
  | otherStatements hfirst => exact .on rfl ((run_bind_ok hfirst).trans h)
  | turnBody hcondition ha => exact .taken (takes hcondition ha h)
  | body => exact .body
  | loopStart => exact .start
  | _ => cases hto

end Lox
