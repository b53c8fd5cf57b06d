import Lox.Proofs.Machine.Composition

/-!
# Where names are bound

A name comes into a frame by a declaration that runs with the frame in front, and by nothing else.

* `Call.Spares f c`: no declaration of the call `c` itself runs with the frame `f` in front.
* `Makes.spares`: **then neither does one of the calls that it makes.** The statements of a block, a loop
  or a function run with a frame in front that was opened for them, and those of a branch or in the body
  of a loop are no declarations.
* `Call.Spares.names_eq`: a call that spares a frame leaves the names in it as they are, however it ends.
-/

namespace Lox

variable {α : Type} {n : Nat} {m m' : Machine} {c c' : Call} {f : FrameId}

/-! ## 1. Names in a frame -/

/-- A name that is bound anew keeps its place, and another comes last. -/
theorem Bindings.names_put {α : Type} (b : Bindings α) (n : String) (a : α) :
    (b.put n a).names = if b.binds n then b.names else b.names ++ [n] := by
  induction b with
  | nil => rfl
  | cons p rest ih =>
    obtain ⟨k, c⟩ := p
    by_cases hk : k = n
    · simp [put, names, binds, find?, hk]
    · have hput : put ((k, c) :: rest) n a = (k, c) :: put rest n a := if_neg hk
      have hbinds : binds ((k, c) :: rest) n = binds rest n := by simp [binds, find?, hk]
      rw [hput, hbinds]
      show k :: names (put rest n a) = if binds rest n then k :: names rest else k :: names rest ++ [n]
      rw [ih]
      split <;> rfl

theorem Bindings.nodup_put {α : Type} {b : Bindings α} (n : String) (a : α) (h : b.names.Nodup) :
    (b.put n a).names.Nodup := by
  rw [names_put]
  split
  · exact h
  · next hb =>
    rw [← List.concat_eq_append]
    exact h.concat fun hmem => hb ((mem_names_iff b n).mp hmem)

/-- Binding a name anew where it is bound leaves the names of all frames. -/
theorem Store.names_defineIn {s : Store} {g : FrameId} {name : String} {v : Value}
    (h : (s.frame g).binds name = true) (f : FrameId) :
    ((s.defineIn g name v).frame f).names = (s.frame f).names := by
  rw [frame_defineIn]
  split
  · next hf =>
    rw [hf.1] at h
    rw [Bindings.names_put, if_pos h]
  · rfl

/-- Binding a name leaves all frames but the one in front. -/
theorem Store.frame_define {s : Store} {env : Env} {name : String} {v : Value}
    (h : ¬ env.First f) : (s.define env name v).frame f = s.frame f := by
  cases env with
  | nil => rfl
  | cons g outer =>
    show (s.defineIn g name v).frame f = _
    rw [frame_defineIn, if_neg]
    rintro ⟨rfl, -⟩
    exact h ⟨outer, rfl⟩

/-! ## 2. Calls that spare a frame -/

/-- A statement that brings no name into the frame in front: it is no declaration, nor does it have one
    for a branch or for the body of a loop. -/
def Stmt.Quiet (s : Stmt) : Prop := s.Shaped Token.Spelled ∧ s.declared? = none

/-- **A call spares a frame**: with the frame in front, it runs no declaration itself. -/
def Call.Spares (f : FrameId) : Call → Prop
  | .execute s env => env.First f → s.Quiet
  | .executeAll ss env => env.First f → ∀ s ∈ ss, s.Quiet
  | .turns _ _ body env => env.First f → body.Quiet
  | .evaluate _ _ | .evaluateAll _ _ | .apply _ _ _ | .invoke _ _ => True

/-- A frame that is opened for a call is none that was there. -/
theorem not_first_of_newFrame {env inner : Env} {b : Bindings Value}
    (h : (newFrame env b).run m = (.ok inner, m')) (hf : f < m.store.frames.size) :
    ¬ inner.First f := by
  cases h
  rintro ⟨outer, heq⟩
  cases heq
  exact Nat.lt_irrefl _ hf

/-- **What a call makes spares the frames** that the call itself spares. -/
theorem Makes.spares (hm : Makes n c m c' m') (hf : f < m.store.frames.size) (hc : c.Spares f) :
    c'.Spares f := by
  cases hm with
  -- with a frame of its own in front
  | body hframe => exact fun h => absurd h (not_first_of_newFrame hframe hf)
  | loopStart hframe => exact fun h => absurd h (not_first_of_newFrame hframe hf)
  | loopTurns hframe _ => exact fun h => absurd h (not_first_of_newFrame hframe hf)
  | bareTurns hframe => exact fun h => absurd h (not_first_of_newFrame hframe hf)
  | block hframe => exact fun h => absurd h (not_first_of_newFrame hframe hf)
  -- with the same frame in front
  | branchYes _ _ =>
    intro h
    obtain ⟨-, hyes, hdeclared, -⟩ := (hc h).1
    exact ⟨hyes, hdeclared⟩
  | branchNo _ _ =>
    intro h
    obtain ⟨-, -, -, hno⟩ := (hc h).1
    exact hno
  | whileTurns =>
    intro h
    obtain ⟨-, hbody⟩ := (hc h).1
    exact hbody
  | firstStatement => exact fun h => hc h _ List.mem_cons_self
  | otherStatements _ => exact fun h s hs => hc h s (List.mem_cons_of_mem _ hs)
  | turnBody _ _ | nextTurn _ _ _ _ _ | nextBareTurn _ _ _ _ => exact hc
  | _ => trivial

/-! ## 3. Frames that are there stay -/

section Sizes

variable {e : Expr} {es : List Expr} {s : Stmt} {env : Env}

theorem size_le_evaluate {r : Except Stop Value} (h : (evaluate n e env).run m = (r, m')) :
    m.store.frames.size ≤ m'.store.frames.size := by
  have hsize := Call.size_le n (.evaluate e env) m
  rwa [machineAfter, h] at hsize

theorem size_le_evaluateAll {r : Except Stop (List Value)}
    (h : (evaluateAll n es env).run m = (r, m')) :
    m.store.frames.size ≤ m'.store.frames.size := by
  have hsize := Call.size_le n (.evaluateAll es env) m
  rwa [machineAfter, h] at hsize

theorem size_le_execute {r : Except Stop Signal} (h : (execute n s env).run m = (r, m')) :
    m.store.frames.size ≤ m'.store.frames.size := by
  have hsize := Call.size_le n (.execute s env) m
  rwa [machineAfter, h] at hsize

theorem size_le_newFrame {inner : Env} {b : Bindings Value}
    (h : (newFrame env b).run m = (.ok inner, m')) :
    m.store.frames.size ≤ m'.store.frames.size := by
  have hframe : Consists (fun _ => True) m (newFrame env b) := .frame
  have hsize := hframe.size_le
  rwa [h] at hsize

/-- A call is made where the frames are still there. -/
theorem Makes.size_le (hm : Makes n c m c' m') : m.store.frames.size ≤ m'.store.frames.size := by
  cases hm with
  | binaryRight h | choiceYes h _ | choiceNo h _ | arguments h | setValue h | others h
  | branchYes h _ | branchNo h _ | turnBody h _ => exact size_le_evaluate h
  | logicalRight h _ => exact size_le_evaluate h
  | applied hf hargs _ => exact Nat.le_trans (size_le_evaluate hf) (size_le_evaluateAll hargs)
  | initializer _ ho hb =>
    cases ho
    cases hb
    show _ ≤ (Array.push _ _).size
    rw [Array.size_push]
    exact Nat.le_succ _
  | body h | loopStart h | bareTurns h | block h => exact size_le_newFrame h
  | loopTurns h hs => exact Nat.le_trans (size_le_newFrame h) (size_le_execute hs)
  | otherStatements h => exact size_le_execute h
  | turnIncrement hc _ hb _ | nextBareTurn hc _ hb _ =>
    exact Nat.le_trans (size_le_evaluate hc) (size_le_execute hb)
  | nextTurn hc _ hb _ hi =>
    exact Nat.le_trans (Nat.le_trans (size_le_evaluate hc) (size_le_execute hb)) (size_le_evaluate hi)
  | _ => exact Nat.le_refl _

end Sizes

/-! ## 4. Names that stay -/

/-- The calls that spare a frame which is there. -/
def Sparing (f : FrameId) : History := fun v => f < v.machine.store.frames.size ∧ v.call.Spares f

theorem Sparing.closed (f : FrameId) : (Sparing f).Closed := fun _ _ _ _ _ h hm =>
  ⟨Nat.lt_of_lt_of_le h.1 hm.size_le, hm.spares h.1 h.2⟩

/-- **A computation that spares a frame** leaves the names in it. -/
theorem Consists.names_eq {x : Run α} (h : Consists (Sparing f) m x)
    (hf : f < m.store.frames.size) :
    ((x.run m).2.store.frame f).names = (m.store.frame f).names := by
  induction h with
  | ends h => rw [h]
  | sees _ _ ih => exact ih hf
  | @bind α β m x g hx _ ihx ihg =>
    cases hrun : x.run m with
    | mk r m' =>
      have hfirst := ihx hf
      have hsize := hx.size_le
      rw [hrun] at hfirst hsize
      cases r with
      | ok a =>
        rw [run_bind_ok hrun]
        exact (ihg a m' hrun (Nat.lt_of_lt_of_le hf hsize)).trans hfirst
      | error e =>
        rw [run_bind_error hrun]
        exact hfirst
  | @frame m env b =>
    show (({ m.store with frames := m.store.frames.push b } : Store).frame f).names = _
    rw [Store.frame_push, if_neg (Nat.ne_of_lt hf)]
  | object | identity | field | clock | sleeps => rfl
  | rebinds hb => exact Store.names_defineIn hb f
  | @declares _ s env _ name m v hv hs =>
    -- a declaration does not have the frame in front
    have hfirst : ¬ env.First f := by
      intro h
      have hquiet := (hv.2 h).2
      rw [hs] at hquiet
      cases hquiet
    exact congrArg Bindings.names (Store.frame_define hfirst)
  | print => rw [print_run]
  | @read _ args paren m _ =>
    obtain ⟨sink, input, hm⟩ := nextLine_snd m
    rw [read_run]
    show (m.nextLine.2.store.frame f).names = _
    rw [hm]

/-- **A call that spares a frame** leaves the names in it as they are, however it ends. -/
theorem Call.Spares.names_eq (h : c.Spares f) (n : Nat) (hf : f < m.store.frames.size) :
    ((machineAfter n m c).store.frame f).names = (m.store.frame f).names :=
  (calls_consist (Sparing.closed f) n c m ⟨hf, h⟩).after
    (P := fun m' => (m'.store.frame f).names = (m.store.frame f).names) fun hx => hx.names_eq hf

end Lox
