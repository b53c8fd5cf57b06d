import Lox.Machine.Evaluate
import Lox.Proofs.Likeness.Trees
import Lox.Proofs.Machine.Invariant

/-!
# Machines that are alike

Two machines are alike if their stores hold the same frames and objects at the same addresses, up to the
names that a renaming of each frame gives its variables, and functions that are alike.

* `EnvKeys`: the renamings of the frames of an environment. The renamings of all frames are a list
  `κs`, one an address, which only ever grows.
* `ValueLike`: two values. Functions are made in the same environment, of programs that are alike.
* `MachineLike`: **two machines**, whose tables give like references the same distances.
* `OutcomeLike`: what two computations come to.
-/

namespace Lox

/-! ## 1. Environments -/

/-- The renamings of the frames of an environment, by the renamings of all frames. -/
def EnvKeys (κs : List Renaming) (env : Env) (keys : List Renaming) : Prop :=
  List.Forall₂ (fun f r => κs[f]? = some r) env keys

theorem prefix_getElem? {α : Type} {κs κs' : List α} (h : κs <+: κs') {f : Nat} {r : α}
    (hr : κs[f]? = some r) : κs'[f]? = some r := by
  obtain ⟨more, rfl⟩ := h
  rw [List.getElem?_append_left (List.getElem?_eq_some_iff.mp hr).1]
  exact hr

namespace EnvKeys

variable {κs κs' keys : List Renaming} {env : Env}

theorem mono (h : EnvKeys κs env keys) (hκ : κs <+: κs') : EnvKeys κs' env keys :=
  List.Forall₂.imp (fun _ _ hr => prefix_getElem? hκ hr) h

theorem at_some (h : EnvKeys κs env keys) {d : Nat} {f : FrameId} (hf : env[d]? = some f) :
    ∃ r, keys[d]? = some r ∧ κs[f]? = some r := by
  induction h generalizing d with
  | nil => cases hf
  | cons hr _ ih =>
    cases d with
    | zero =>
      cases hf
      exact ⟨_, rfl, hr⟩
    | succ d => exact ih hf

end EnvKeys

/-! ## 2. Bindings -/

section Bindings

variable {α : Type} {V W : α → α → Prop} {r : Renaming}

/-- Two bindings of the same names, but for a renaming, to values that `V` relates. -/
def BindingsLike (V : α → α → Prop) (r : Renaming) (b b' : Bindings α) : Prop :=
  List.Forall₂ (fun p p' => p'.1 = r.new p.1 ∧ V p.2 p'.2) b b'

theorem BindingsLike.mono {b b' : Bindings α} (h : BindingsLike V r b b')
    (hVW : ∀ a a', V a a' → W a a') : BindingsLike W r b b' :=
  List.Forall₂.imp (fun _ _ hp => ⟨hp.1, hVW _ _ hp.2⟩) h

theorem BindingsLike.single {n : String} {a a' : α} (h : V a a') :
    BindingsLike V r [(n, a)] [(r.new n, a')] := .cons ⟨rfl, h⟩ .nil

theorem BindingsLike.find? {b b' : Bindings α} (h : BindingsLike V r b b') (n : String) :
    Option.Rel V (b.find? n) (b'.find? (r.new n)) := by
  induction h with
  | nil => exact .none
  | @cons p p' _ _ hp _ ih =>
    obtain ⟨m, a⟩ := p
    obtain ⟨m', a'⟩ := p'
    obtain ⟨rfl, ha⟩ := hp
    by_cases hm : m = n
    · simpa [Bindings.find?, hm] using Option.Rel.some ha
    · simpa [Bindings.find?, hm, r.new_eq_iff] using ih

theorem BindingsLike.binds {b b' : Bindings α} (h : BindingsLike V r b b') (n : String) :
    b'.binds (r.new n) = b.binds n := by
  have hfind := h.find? n
  unfold Bindings.binds
  generalize b.find? n = x, b'.find? (r.new n) = x' at hfind ⊢
  cases hfind <;> rfl

theorem BindingsLike.put {b b' : Bindings α} (h : BindingsLike V r b b') (n : String) {a a' : α}
    (ha : V a a') : BindingsLike V r (b.put n a) (b'.put (r.new n) a') := by
  induction h with
  | nil => exact .cons ⟨rfl, ha⟩ .nil
  | @cons p p' rest rest' hp hrest ih =>
    obtain ⟨m, c⟩ := p
    obtain ⟨m', c'⟩ := p'
    obtain ⟨rfl, hc⟩ := hp
    by_cases hm : m = n
    · simpa [Bindings.put, hm] using .cons ⟨rfl, ha⟩ hrest
    · simpa [Bindings.put, hm, r.new_eq_iff] using .cons ⟨rfl, hc⟩ ih

theorem BindingsLike.ofPairs {ps ps' : List (String × α)}
    (h : List.Forall₂ (fun p p' => p'.1 = r.new p.1 ∧ V p.2 p'.2) ps ps') :
    BindingsLike V r (Bindings.ofPairs ps) (Bindings.ofPairs ps') := by
  have hfold : ∀ {b b' : Bindings α}, BindingsLike V r b b' →
      BindingsLike V r (ps.foldl (fun b p => b.put p.1 p.2) b)
        (ps'.foldl (fun b p => b.put p.1 p.2) b') := by
    induction h with
    | nil => exact id
    | @cons p p' _ _ hp _ ih =>
      obtain ⟨m', a'⟩ := p'
      obtain ⟨rfl, ha⟩ := hp
      exact fun hb => ih (hb.put p.1 ha)
  exact hfold .nil

theorem BindingsLike.names {b b' : Bindings α} (h : BindingsLike V .same b b') :
    b'.names = b.names := by
  induction h with
  | nil => rfl
  | cons hp _ ih => exact List.cons_eq_cons.mpr ⟨hp.1, ih⟩

end Bindings

/-! ## 3. Values -/

section Values

variable (L : Likeness) (κs : List Renaming)

/-- Two functions made in one environment. Behind the frames `inner`, which a call puts in front first,
    their programs are alike. -/
structure ClosureLike (inner : List Renaming) (f f' : Closure) : Prop where
  name : f'.name = f.name
  env : f'.env = f.env
  isInitializer : f'.isInitializer = f.isInitializer
  code : ∃ keys, EnvKeys κs f.env keys ∧ CodeLike L (inner ++ keys) f.code f'.code

/-- Two functions. -/
abbrev FunctionLike : Closure → Closure → Prop := ClosureLike L κs []

/-- Two methods, which are bound to an instance before they are called. -/
abbrev MethodLike : Closure → Closure → Prop := ClosureLike L κs [.same]

/-- Two classes. -/
inductive ClassLike : Class → Class → Prop where
  | base {id name ms ms'} (hms : BindingsLike (MethodLike L κs) .same ms ms') :
      ClassLike (.mk id name none ms) (.mk id name none ms')
  | derived {id name c c' ms ms'} (hc : ClassLike c c')
      (hms : BindingsLike (MethodLike L κs) .same ms ms') :
      ClassLike (.mk id name (some c) ms) (.mk id name (some c') ms')

/-- **Two values.** -/
inductive ValueLike : Value → Value → Prop where
  | nil : ValueLike .nil .nil
  | bool {b} : ValueLike (.bool b) (.bool b)
  | number {x} : ValueLike (.number x) (.number x)
  | text {s} : ValueLike (.text s) (.text s)
  | native {f} : ValueLike (.native f) (.native f)
  | function {id f f'} (h : FunctionLike L κs f f') : ValueLike (.function id f) (.function id f')
  | ofClass {c c'} (h : ClassLike L κs c c') : ValueLike (.ofClass c) (.ofClass c')
  | object {o c c'} (h : ClassLike L κs c c') : ValueLike (.object o c) (.object o c')

end Values

section Facts

variable {L L' : Likeness} {κs κs' : List Renaming}

theorem CodeLike.arity {keys : List Renaming} {c c' : Code} (h : CodeLike L keys c c') :
    c'.arity = c.arity := by
  cases h with
  | mk _ hparams _ => exact hparams.length_eq.symm

theorem ClosureLike.arity {inner : List Renaming} {f f' : Closure}
    (h : ClosureLike L κs inner f f') : f'.code.arity = f.code.arity := by
  obtain ⟨_, _, hcode⟩ := h.code
  exact hcode.arity

theorem ClosureLike.mono {inner : List Renaming} {f f' : Closure}
    (h : ClosureLike L κs inner f f') (hw : L.Within L') (hκ : κs <+: κs') :
    ClosureLike L' κs' inner f f' := by
  obtain ⟨keys, hkeys, hcode⟩ := h.code
  exact ⟨h.name, h.env, h.isInitializer, keys, hkeys.mono hκ, hcode.mono hw⟩

theorem ClassLike.mono {c c' : Class} (h : ClassLike L κs c c') (hw : L.Within L')
    (hκ : κs <+: κs') : ClassLike L' κs' c c' := by
  induction h with
  | base hms => exact .base (hms.mono fun _ _ hm => hm.mono hw hκ)
  | derived _ hms ih => exact .derived ih (hms.mono fun _ _ hm => hm.mono hw hκ)

theorem ValueLike.mono {v v' : Value} (h : ValueLike L κs v v') (hw : L.Within L')
    (hκ : κs <+: κs') : ValueLike L' κs' v v' := by
  cases h with
  | nil => exact .nil
  | bool => exact .bool
  | number => exact .number
  | text => exact .text
  | native => exact .native
  | function h => exact .function (h.mono hw hκ)
  | ofClass h => exact .ofClass (h.mono hw hκ)
  | object h => exact .object (h.mono hw hκ)

/-- Values stay alike while frames are added. -/
theorem ValueLike.later {v v' : Value} (h : ValueLike L κs v v') (hκ : κs <+: κs') :
    ValueLike L κs' v v' := h.mono (.refl L) hκ

theorem ClassLike.id_eq {c c' : Class} (h : ClassLike L κs c c') : c'.id = c.id := by
  cases h <;> rfl

theorem ClassLike.name_eq {c c' : Class} (h : ClassLike L κs c c') : c'.name = c.name := by
  cases h <;> rfl

/-- The methods that two classes find by one name. -/
theorem ClassLike.method? {c c' : Class} (h : ClassLike L κs c c') (n : String) :
    Option.Rel (MethodLike L κs) (c.method? n) (c'.method? n) := by
  induction h with
  | base hms => exact hms.find? n
  | @derived _ _ _ _ ms ms' _ hms ih =>
    have hfind := hms.find? n
    rw [Renaming.same_new] at hfind
    rw [Class.method?, Class.method?]
    generalize ms.find? n = x, ms'.find? n = x' at hfind ⊢
    cases hfind with
    | none => exact ih
    | some h => exact .some h

theorem ClassLike.arity {c c' : Class} (h : ClassLike L κs c c') : c'.arity = c.arity := by
  have hfind := h.method? initializerName
  unfold Class.arity
  generalize c.method? initializerName = x, c'.method? initializerName = x' at hfind ⊢
  cases hfind with
  | none => rfl
  | some h => exact h.arity

namespace ValueLike

variable {v v' w w' : Value}

theorem isTruthy (h : ValueLike L κs v v') : v'.isTruthy = v.isTruthy := by
  cases h <;> rfl

theorem typeName (h : ValueLike L κs v v') : v'.typeName = v.typeName := by
  cases h <;> rfl

theorem display (h : ValueLike L κs v v') : v'.display = v.display := by
  cases h with
  | function h => simp only [Value.display, h.name]
  | ofClass h | object h => simp only [Value.display, h.name_eq]
  | _ => rfl

theorem arity? (h : ValueLike L κs v v') : v'.arity? = v.arity? := by
  cases h with
  | function h => exact congrArg some h.arity
  | ofClass h => exact congrArg some h.arity
  | _ => rfl

theorem same_eq (h : ValueLike L κs v v') (hw : ValueLike L κs w w') :
    v'.same w' = v.same w := by
  cases h with
  | ofClass hc =>
    cases hw with
    | ofClass hd => simp only [Value.same, hc.id_eq, hd.id_eq]
    | _ => rfl
  | _ => cases hw <;> rfl

end ValueLike

end Facts

/-! ## 4. Machines -/

/-- **Two machines.** -/
structure MachineLike (L : Likeness) (κs : List Renaming) (m m' : Machine) : Prop where
  count : m.store.frames.size = κs.length
  count' : m'.store.frames.size = κs.length
  frames : ∀ f r, κs[f]? = some r →
    BindingsLike (ValueLike L κs) r (m.store.frame f) (m'.store.frame f)
  objects : m'.store.objects.size = m.store.objects.size
  fields : ∀ o, BindingsLike (ValueLike L κs) .same (m.store.fields o) (m'.store.fields o)
  nextIdentity : m'.store.nextIdentity = m.store.nextIdentity
  sink : m'.sink = m.sink
  input : m'.input = m.input
  now : m'.now = m.now
  clock : m'.clock = m.clock
  /-- Global names stay. -/
  global : κs[Store.globalFrame]? = some .same
  /-- A reference has one distance in both tables, and names the variable of that frame in both. -/
  refs : ∀ {keys r r'}, L.ref keys r r' → m'.distances.find? r'.id = m.distances.find? r.id ∧
    r'.name = spelled keys (m.distances.find? r.id) r.name

namespace MachineLike

variable {L L' : Likeness} {κs : List Renaming} {m m' : Machine}

theorem names (h : MachineLike L κs m m') :
    m'.store.names Store.globals = m.store.names Store.globals := by
  have hframe := (h.frames _ _ h.global).names
  simp only [Store.globals, Store.names, hframe]

theorem defineIn (h : MachineLike L κs m m') {f : FrameId} {r : Renaming} (hf : κs[f]? = some r)
    (n : String) {v v' : Value} (hv : ValueLike L κs v v') :
    MachineLike L κs { m with store := m.store.defineIn f n v }
      { m' with store := m'.store.defineIn f (r.new n) v' } where
  __ := h
  count := Array.size_modify.trans h.count
  count' := Array.size_modify.trans h.count'
  frames g s hg := by
    have hlt := (List.getElem?_eq_some_iff.mp hg).1
    rw [Store.frame_defineIn, Store.frame_defineIn, h.count, h.count']
    by_cases hfg : f = g
    · subst hfg
      cases Option.some.inj (hf.symm.trans hg)
      rw [if_pos ⟨rfl, hlt⟩, if_pos ⟨rfl, hlt⟩]
      exact (h.frames f _ hf).put n hv
    · rw [if_neg (fun hg => hfg hg.1), if_neg (fun hg => hfg hg.1)]
      exact h.frames g s hg

theorem push (h : MachineLike L κs m m') (r : Renaming) {b b' : Bindings Value}
    (hb : BindingsLike (ValueLike L κs) r b b') :
    MachineLike L (κs ++ [r]) { m with store := { m.store with frames := m.store.frames.push b } }
      { m' with store := { m'.store with frames := m'.store.frames.push b' } } where
  __ := h
  count := by simp [h.count]
  count' := by simp [h.count']
  frames g s hg := by
    have hlater : ∀ v v', ValueLike L κs v v' → ValueLike L (κs ++ [r]) v v' :=
      fun _ _ hv => hv.later (List.prefix_append _ _)
    rw [Store.frame_push, Store.frame_push, h.count, h.count']
    by_cases hnew : g = κs.length
    · subst hnew
      rw [List.getElem?_concat_length] at hg
      cases hg
      rw [if_pos rfl, if_pos rfl]
      exact hb.mono hlater
    · have hlt : g < κs.length := by
        have hle := (List.getElem?_eq_some_iff.mp hg).1
        rw [List.length_append, List.length_singleton] at hle
        exact Nat.lt_of_le_of_ne (Nat.le_of_lt_succ hle) hnew
      rw [List.getElem?_append_left hlt] at hg
      rw [if_neg hnew, if_neg hnew]
      exact (h.frames g s hg).mono hlater
  fields o := (h.fields o).mono fun _ _ hv => hv.later (List.prefix_append _ _)
  global := prefix_getElem? (List.prefix_append _ _) h.global

theorem setField (h : MachineLike L κs m m') (o : ObjectId) (n : String) {v v' : Value}
    (hv : ValueLike L κs v v') :
    MachineLike L κs { m with store := m.store.setField o n v }
      { m' with store := m'.store.setField o n v' } where
  __ := h
  objects := by simp only [Store.setField, Array.size_modify, h.objects]
  fields q := by
    rw [Store.fields_setField, Store.fields_setField, h.objects]
    by_cases hq : o = q ∧ q < m.store.objects.size
    · rw [if_pos hq, if_pos hq]
      exact (h.fields q).put n hv
    · rw [if_neg hq, if_neg hq]
      exact h.fields q

theorem newObject (h : MachineLike L κs m m') :
    MachineLike L κs { m with store := m.store.newObject.2 }
      { m' with store := m'.store.newObject.2 } where
  __ := h
  objects := by simp only [Store.newObject, Array.size_push, h.objects]
  fields o := by
    rw [Store.fields_newObject, Store.fields_newObject]
    exact h.fields o

theorem newIdentity (h : MachineLike L κs m m') :
    MachineLike L κs { m with store := m.store.newIdentity.2 }
      { m' with store := m'.store.newIdentity.2 } where
  __ := h
  nextIdentity := congrArg (· + 1) h.nextIdentity

/-- Two machines in the same surroundings, whatever these are. -/
theorem outside (h : MachineLike L κs m m') (sink : Sink) (input : Input) (now : Instant)
    (clock : Clock) :
    MachineLike L κs { m with sink, input, now, clock } { m' with sink, input, now, clock } where
  __ := h
  sink := rfl
  input := rfl
  now := rfl
  clock := rfl

/-- Two machines with other tables, where more may differ. -/
theorem mono (h : MachineLike L κs m m') (hw : L.Within L') {d d' : Distances}
    (hd : ∀ {keys r r'}, L'.ref keys r r' → d'.find? r'.id = d.find? r.id ∧
      r'.name = spelled keys (d.find? r.id) r.name) :
    MachineLike L' κs { m with distances := d } { m' with distances := d' } where
  __ := h
  frames f r hf := (h.frames f r hf).mono fun _ _ hv => hv.mono hw (List.prefix_refl _)
  fields o := (h.fields o).mono fun _ _ hv => hv.mono hw (List.prefix_refl _)
  refs := hd

end MachineLike

/-! ## 5. Outcomes -/

/-- Two errors of programs. -/
inductive ErrorLike (L : Likeness) : RuntimeError → RuntimeError → Prop where
  | type {message p p'} (hp : L.pos p p') : ErrorLike L (.type message p) (.type message p')
  | divisionByZero {p p'} (hp : L.pos p p') : ErrorLike L (.divisionByZero p) (.divisionByZero p')
  | undefinedVariable {t t'} (h : L.undefined t t') :
      ErrorLike L (.undefinedVariable t.lexeme t.pos) (.undefinedVariable t'.lexeme t'.pos)
  | undefinedProperty {n p p'} (hp : L.pos p p') :
      ErrorLike L (.undefinedProperty n p) (.undefinedProperty n p')
  | arity {k l p p'} (hp : L.pos p p') : ErrorLike L (.arity k l p) (.arity k l p')
  | native {message p p'} (hp : L.pos p p') : ErrorLike L (.native message p) (.native message p')

/-- Why two computations stopped. A fault is like any other. -/
inductive StopLike (L : Likeness) : Stop → Stop → Prop where
  | error {e e'} (h : ErrorLike L e e') : StopLike L (.error e) (.error e')
  | fault {f f'} : StopLike L (.fault f) (.fault f')
  | starved : StopLike L .starved .starved

/-- **What two computations come to**: values that `V` relates, or stops for like reasons. -/
inductive OutcomeLike {α : Type} (L : Likeness) (V : α → α → Prop) :
    Except Stop α → Except Stop α → Prop where
  | ok {a a'} (h : V a a') : OutcomeLike L V (.ok a) (.ok a')
  | error {e e'} (h : StopLike L e e') : OutcomeLike L V (.error e) (.error e')

/-- How two statements finished. -/
inductive SignalLike (L : Likeness) (κs : List Renaming) : Signal → Signal → Prop where
  | normal : SignalLike L κs .normal .normal
  | ret {v v'} (h : ValueLike L κs v v') : SignalLike L κs (.ret v) (.ret v')
  | leave : SignalLike L κs .leave .leave
  | next : SignalLike L κs .next .next

end Lox
