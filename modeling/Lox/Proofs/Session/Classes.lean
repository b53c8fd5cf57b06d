import Lox.Proofs.Session.Globals
import Lox.Proofs.Session.Unbound

/-!
# Class declarations

A class declaration binds its name twice: to nil, so that the class can mean itself, and at last to the
class. In between the superclass is looked up, and that may fail.

* `Rebinds f name v m m'`: of all that was there, only what one frame binds one name to has changed.
* `Superclass superclass r`: what looking up a superclass comes to. No name but its own makes a
  difference to it (`superclassOf_run`).
* `newClass`: the class that a declaration makes.
* `class_declarations_rebind`: **a class declaration changes one binding**, whether it makes its class or
  raises an error. Where it raises one, the name is left bound to nil.
* `failed_declaration_forgets`: a class of that name is lost then.
-/

namespace Lox

variable {w : World} {k n : Nat} {m m' m'' : Machine} {v : Visit} {f g : FrameId} {env outer : Env}
  {name : Token} {superclass : Option Reference} {methods : List FunDecl}

/-! ## 1. One binding -/

/-- A name that is bound twice in a row is bound as it was bound last. -/
theorem Bindings.put_put {α : Type} (b : Bindings α) (x : String) (a c : α) :
    (b.put x a).put x c = b.put x c := by
  induction b with
  | nil => simp [put]
  | cons p rest ih =>
    obtain ⟨y, d⟩ := p
    by_cases hy : y = x
    · simp [put, hy]
    · simp [put, hy, ih]

/-- **Of all that was there, only one binding has changed**: the frame `f` binds the name to the value.
    New frames and identities may have been handed out. -/
structure Rebinds (f : FrameId) (name : String) (v : Value) (m m' : Machine) : Prop where
  frames : ∀ g, g < m.store.frames.size →
    m'.store.frame g = if g = f then (m.store.frame f).put name v else m.store.frame g
  size : m.store.frames.size ≤ m'.store.frames.size
  objects : m'.store.objects = m.store.objects
  rest : m' = { m with store := m'.store }

namespace Rebinds

variable {x : String} {u u' : Value}

/-- Name by name. -/
theorem find? (h : Rebinds f x u m m') (hg : g < m.store.frames.size) (y : String) :
    (m'.store.frame g).find? y = if g = f ∧ y = x then some u else (m.store.frame g).find? y := by
  rw [h.frames g hg]
  by_cases hf : g = f
  · by_cases hy : y = x
    · simp [hf, hy]
    · simp [hf, hy, Bindings.find?_put_ne, Ne.symm hy]
  · simp [hf]

theorem defineIn (m : Machine) (f : FrameId) (x : String) (u : Value) :
    Rebinds f x u m { m with store := m.store.defineIn f x u } where
  frames g hg := by
    rw [Store.frame_defineIn]
    by_cases hfg : g = f
    · rw [if_pos ⟨hfg.symm, hg⟩, if_pos hfg, hfg]
    · rw [if_neg fun h => hfg h.1.symm, if_neg hfg]
  size := Nat.le_of_eq (Store.size_defineIn _ _ _ _).symm
  objects := rfl
  rest := rfl

/-- **Bound anew**, a name is bound as it was bound last. -/
theorem again (h : Rebinds f x u m m') (h' : Rebinds f x u' m' m'') (hf : f < m.store.frames.size) :
    Rebinds f x u' m m'' where
  frames g hg := by
    rw [h'.frames g (Nat.lt_of_lt_of_le hg h.size), h.frames g hg, h.frames f hf, if_pos rfl,
      Bindings.put_put]
    split <;> rfl
  size := Nat.le_trans h.size h'.size
  objects := h'.objects.trans h.objects
  rest := by rw [h'.rest, h.rest]

end Rebinds

/-- **A place has a frame in front**, and the frame is there. -/
theorem ReadyAt.front {program : List Stmt} {node : Node} {p : Place}
    (hp : ReadyAt w k m v program node p env) (hsize : 0 < m.store.frames.size) :
    ∃ f outer, env = f :: outer ∧ f < m.store.frames.size := by
  have hactivated := hp.activated
  have hfilled := hp.filled
  cases hlayers : p.layers with
  | nil =>
    rw [hlayers] at hactivated
    cases hactivated
    exact ⟨_, _, rfl, hsize⟩
  | cons l layers =>
    rw [hlayers] at hfilled
    cases hfilled with
    | layer hf _ _ => exact ⟨_, _, rfl, hf⟩

/-! ## 2. Superclasses -/

/-- **What looking up a superclass comes to**: a class, or nothing where none is named, or an error about
    the reference. -/
inductive Superclass : Option Reference → Except Stop (Option Class) → Prop where
  | absent : Superclass none (.ok none)
  | found {ref c} : Superclass (some ref) (.ok (some c))
  | undefined {ref} :
      Superclass (some ref) (.error (.error (.undefinedVariable ref.name ref.token.pos)))
  | noClass {ref} :
      Superclass (some ref) (.error (.error (.type "Superclass must be a class." ref.token.pos)))

/-- **A superclass is looked up by its name alone**: on all machines that bind the name alike, it comes
    to the same, and the machine is left as it is. -/
theorem superclassOf_run (hmeans : ∀ ref, superclass = some ref → ∃ g, Means m.distances ref env g) :
    ∃ r, Superclass superclass r ∧ ∀ m', m'.distances = m.distances →
      (∀ ref g, superclass = some ref →
        (m'.store.frame g).find? ref.name = (m.store.frame g).find? ref.name) →
      (superclassOf superclass env).run m' = (r, m') := by
  cases superclass with
  | none => exact ⟨_, .absent, fun _ _ _ => rfl⟩
  | some ref =>
    obtain ⟨g, hg⟩ := hmeans ref rfl
    have hread : ∀ m', m'.distances = m.distances →
        (∀ r g, some ref = some r →
          (m'.store.frame g).find? r.name = (m.store.frame g).find? r.name) →
        (lookUp ref env).run m' = (readIn m.store g ref.token, m') := by
      intro m' hdistances hsame
      rw [hg.read m' hdistances, readIn, readIn]
      rw [show (m'.store.frame g).find? ref.token.lexeme = _ from hsame ref g rfl]
      rfl
    unfold readIn at hread
    cases hfind : (m.store.frame g).find? ref.token.lexeme with
    | none =>
      rw [hfind] at hread
      exact ⟨_, .undefined, fun m' hd hs => run_bind_error (hread m' hd hs)⟩
    | some u =>
      rw [hfind] at hread
      cases u with
      | ofClass c => exact ⟨_, .found, fun m' hd hs => run_bind_ok (hread m' hd hs)⟩
      | _ => exact ⟨_, .noClass, fun m' hd hs => run_bind_ok (hread m' hd hs)⟩

/-! ## 3. Declarations -/

/-- **The class that a declaration makes** on a store: a new one, whose methods have the environment of the
    declaration, with the next frame in front where there is a superclass. -/
def newClass (s : Store) (name : Token) (parent : Option Class) (methods : List FunDecl) (env : Env) :
    Class :=
  let inner := if parent.isSome then s.frames.size :: env else env
  .mk s.nextIdentity name.lexeme parent (.ofPairs (methods.map (methodOf inner)))

/-- What is left of a declaration binds the name to the class, where its frame binds the name. -/
theorem finishClass_run (parent : Option Class) (methods : List FunDecl) (outer : Env)
    (hf : f < m.store.frames.size) (hb : (m.store.frame f).binds name.lexeme = true) :
    ∃ m', (finishClass name methods (f :: outer) parent).run m = (.ok (), m') ∧
      Rebinds f name.lexeme (.ofClass (newClass m.store name parent methods (f :: outer))) m m' := by
  cases parent with
  | none =>
    let m₁ : Machine := { m with store := m.store.newIdentity.2 }
    have h := Rebinds.defineIn m₁ f name.lexeme
      (.ofClass (newClass m.store name none methods (f :: outer)))
    exact ⟨_, assignNearest_innermost (m := m₁) hb, h.frames, h.size, h.objects, rfl⟩
  | some c =>
    let s : Store := { m.store with frames := m.store.frames.push [(superName, .ofClass c)] }
    let m₁ : Machine := { m with store := s.newIdentity.2 }
    have hold : ∀ g, g < m.store.frames.size → m₁.store.frame g = m.store.frame g := by
      intro g hg
      show s.frame g = _
      rw [Store.frame_push, if_neg (Nat.ne_of_lt hg)]
    have hsize : m.store.frames.size < m₁.store.frames.size := by
      show _ < (m.store.frames.push _).size
      rw [Array.size_push]
      exact Nat.lt_succ_self _
    let u : Value := .ofClass (newClass m.store name (some c) methods (f :: outer))
    have hrun : (assignNearest name (f :: outer) u).run m₁
        = (.ok (), { m₁ with store := m₁.store.defineIn f name.lexeme u }) :=
      assignNearest_innermost (by rwa [hold f hf])
    have h := Rebinds.defineIn m₁ f name.lexeme u
    refine ⟨_, hrun, fun g hg => ?_, Nat.le_trans (Nat.le_of_lt hsize) h.size, h.objects, rfl⟩
    rw [h.frames g (Nat.lt_trans hg hsize), hold f hf, hold g hg]

/-- **A declaration** makes its class, or raises what looking up the superclass does. -/
theorem declareClass_run {r : Except Stop (Option Class)} (methods : List FunDecl)
    (hf : f < m.store.frames.size) (hlook : (superclassOf superclass (f :: outer)).run
        { m with store := m.store.defineIn f name.lexeme .nil }
      = (r, { m with store := m.store.defineIn f name.lexeme .nil })) :
    (∃ parent m', r = .ok parent ∧
      (declareClass name superclass methods (f :: outer)).run m = (.ok (), m') ∧
      Rebinds f name.lexeme (.ofClass (newClass m.store name parent methods (f :: outer))) m m') ∨
    ∃ e m', r = .error e ∧
      (declareClass name superclass methods (f :: outer)).run m = (.error e, m') ∧
      Rebinds f name.lexeme .nil m m' := by
  have hnil := Rebinds.defineIn m f name.lexeme .nil
  have hrun : (declareClass name superclass methods (f :: outer)).run m = (do
      let parent ← superclassOf superclass (f :: outer)
      finishClass name methods (f :: outer) parent : Run Unit).run
        { m with store := m.store.defineIn f name.lexeme .nil } := rfl
  rw [hrun]
  cases r with
  | error e => exact .inr ⟨e, _, rfl, run_bind_error hlook, hnil⟩
  | ok parent =>
    have hsize := Store.size_defineIn m.store f name.lexeme .nil
    obtain ⟨m', hfinish, hclass⟩ := finishClass_run parent methods outer
      (m := { m with store := m.store.defineIn f name.lexeme .nil }) (by rwa [hsize])
      (binds_defineIn hf name.lexeme .nil)
    have hsame : newClass (m.store.defineIn f name.lexeme .nil) name parent methods (f :: outer)
        = newClass m.store name parent methods (f :: outer) := by
      rw [newClass, hsize]
      rfl
    rw [hsame] at hclass
    exact .inl ⟨parent, m', rfl, (run_bind_ok hlook).trans hfinish, hnil.again hclass hf⟩

/-! ## 4. Sessions -/

/-- **A class declaration changes one binding**, in all sessions and all environments in which it is
    executed. Either its superclass is a class or absent, and the one change to what was there is that the
    frame in front binds the name to the new class. Or it raises an error about the superclass, which is
    undefined or no class, and the one change is that the frame in front binds the name to nil. -/
theorem class_declarations_rebind {fuel : Nat} {sink : Sink} {input : Input} {now : Instant} {clock : Clock}
    {entries : List Entry}
    (hv : Visited fuel (.start sink input now clock) entries
      ⟨n + 1, .execute (.classDecl name superclass methods) env, m⟩) :
    ∃ f outer r, env = f :: outer ∧ f < m.store.frames.size ∧
      (superclassOf superclass env).run m = (r, m) ∧ Superclass superclass r ∧
      ((∃ parent m', r = .ok parent ∧
        (execute (n + 1) (.classDecl name superclass methods) env).run m = (.ok .normal, m') ∧
        Rebinds f name.lexeme (.ofClass (newClass m.store name parent methods env)) m m') ∨
      ∃ e m', r = .error (.error e) ∧
        (execute (n + 1) (.classDecl name superclass methods) env).run m = (.error (.error e), m') ∧
        Rebinds f name.lexeme .nil m m') := by
  obtain ⟨k, hgood, program, p, hp⟩ := visited_ok (start_sound _ sink input now clock) hv
  have hstart : 0 < (Session.start sink input now clock).machine.store.frames.size := Nat.one_pos
  obtain ⟨hsize, -⟩ := visited_spares hstart hv
  obtain ⟨f, outer, rfl, hf⟩ := hp.front hsize
  have hmeans : ∀ ref, superclass = some ref → ∃ g, Means m.distances ref (f :: outer) g := by
    rintro ref rfl
    exact (hp.superclass hgood).means rfl
  obtain ⟨r, hsuper, hlook⟩ := superclassOf_run hmeans
  -- a class is not its own superclass, so that its name makes no difference
  have hnil := hlook { m with store := m.store.defineIn f name.lexeme .nil } rfl (by
    rintro ref g rfl
    have hne : ref.name ≠ name.lexeme := hp.loaded.rules.superclasses _ _ _ _ hp.occurs
    rw [Store.frame_defineIn]
    split
    · exact Bindings.find?_put_ne _ _ hne.symm
    · rfl)
  refine ⟨f, outer, r, rfl, hf, hlook m rfl fun _ _ _ => rfl, hsuper, ?_⟩
  rcases declareClass_run methods hf hnil with
    ⟨parent, m', rfl, hrun, h⟩ | ⟨e, m', rfl, hrun, h⟩
  · exact .inl ⟨parent, m', rfl, run_bind_ok hrun, h⟩
  · cases hsuper with
    | undefined | noClass => exact .inr ⟨_, m', rfl, run_bind_error hrun, h⟩

/-- A class with a superclass is bound in the global frame, and nothing else there has changed. -/
theorem class_declarations_rebind_derived :
    let source := "class A\x7b\x7d class B<A\x7b\x7d"
    let s := Session.start .unlimited (.ofBytes []) 0
    let name : Token := ⟨.identifier, "B", ⟨1, 17⟩⟩
    let ref : Reference := ⟨⟨0⟩, ⟨.identifier, "A", ⟨1, 19⟩⟩⟩
    let a : Class := .mk 0 "A" none []
    ∃ m m', Visited 5 s [.line source]
        ⟨5, .execute (.classDecl name (some ref) []) Store.globals, m⟩ ∧
      (execute 5 (.classDecl name (some ref) []) Store.globals).run m = (.ok .normal, m') ∧
      Rebinds Store.globalFrame "B" (.ofClass (.mk 1 "B" (some a) [])) m m' ∧
      ∀ x, x ≠ "B" → (m'.store.frame Store.globalFrame).find? x
        = (m.store.frame Store.globalFrame).find? x := by
  intro source s name ref a
  let base : Stmt := .classDecl ⟨.identifier, "A", ⟨1, 7⟩⟩ none []
  let m (b : Bindings Value) (next : Identity) : Machine :=
    ⟨⟨#[b], #[], next⟩, ⟨#[]⟩, .unlimited, .ofBytes [], 0, .steady⟩
  have haccept : s.accept source = (⟨m nativeBindings 0, 1, .empty⟩,
      some ([base] ++ .classDecl name (some ref) [] :: [])) := by cbv
  have hbase : Session.runStatements 5 ⟨m nativeBindings 0, 1, .empty⟩ [base]
      = ⟨⟨m (nativeBindings ++ [("A", .ofClass a)]) 1, 1, .empty⟩, none⟩ := by cbv
  have hbegins := Begins.line haccept (congrArg Step.halt hbase)
  rw [hbase] at hbegins
  have hv := Visited.begins (show [Entry.line source] = [] ++ _ :: [] from rfl) hbegins
  have hlook : (superclassOf (some ref) Store.globals).run (m (nativeBindings ++ [("A", .ofClass a)]) 1)
      = (.ok (some a), m (nativeBindings ++ [("A", .ofClass a)]) 1) := by cbv
  obtain ⟨f, outer, r, henv, hf, hr, -, hcases⟩ := class_declarations_rebind hv
  obtain rfl : r = .ok (some a) := congrArg Prod.fst (hr.symm.trans hlook)
  cases henv
  rcases hcases with ⟨parent, m', hparent, hrun, h⟩ | ⟨e, m', herror, -⟩
  · cases hparent
    exact ⟨_, m', hv, hrun, h, fun x hx => (h.find? hf x).trans (if_neg fun hb => hx hb.2)⟩
  · cases herror

/-- **A declaration that fails forgets a class**: its name was bound to one by an earlier line, and is
    bound to nil behind a declaration whose superclass is undefined. -/
theorem failed_declaration_forgets :
    let entries : List Entry := [.line "class A\x7b\x7d", .line "class A<B\x7b\x7d"]
    let s := Session.start .unlimited (.ofBytes []) 0
    ∃ n name superclass methods env m e m' c, Visited 5 s entries
        ⟨n + 1, .execute (.classDecl name superclass methods) env, m⟩ ∧
      (execute (n + 1) (.classDecl name superclass methods) env).run m = (.error (.error e), m') ∧
      (m.store.frame Store.globalFrame).find? name.lexeme = some (.ofClass c) ∧
      (m'.store.frame Store.globalFrame).find? name.lexeme = some .nil := by
  intro entries s
  let name : Token := ⟨.identifier, "A", ⟨1, 7⟩⟩
  let superclass : Reference := ⟨⟨0⟩, ⟨.identifier, "B", ⟨1, 9⟩⟩⟩
  let m (v : Value) : Machine :=
    ⟨⟨#[nativeBindings ++ [("A", v)]], #[], 1⟩, ⟨#[]⟩, .unlimited, .ofBytes [], 0, .steady⟩
  let a : Class := .mk 0 "A" none []
  have haccept : (s.after 5 [.line "class A\x7b\x7d"]).accept "class A<B\x7b\x7d"
      = (⟨m (.ofClass a), 1, .empty⟩, some ([] ++ .classDecl name (some superclass) [] :: [])) := by cbv
  have hv := Visited.begins (show entries = [.line "class A\x7b\x7d"] ++ _ :: [] from rfl)
    (.line haccept rfl)
  have hrun : (execute 5 (.classDecl name (some superclass) []) Store.globals).run (m (.ofClass a))
      = (.error (.error (.undefinedVariable "B" ⟨1, 9⟩)), m .nil) := by cbv
  exact ⟨4, name, some superclass, [], Store.globals, m (.ofClass a), _, m .nil, a, hv, hrun, rfl, rfl⟩

end Lox
