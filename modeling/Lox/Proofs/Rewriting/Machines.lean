import Lox.Proofs.Likeness.Watch
import Lox.Proofs.Machine.Frames
import Lox.Proofs.Rewriting.Trees

/-!
# Machines of programs written another way

A machine runs a program, and another one the same program written out. The second has all the frames of the
first, at other addresses, and more.

* `φ : List FrameId` has, for each frame of the first machine, its address in the second. It grows while the
  programs run.
* `EnvInto φ slots env env'`: **two environments**, with added frames where the slots say so.
* `ValueInto`, `MachineInto`: **two values, two machines.** What the programs can tell apart is the same.
* `ErrorInto`, `OutcomeInto`: two errors that differ in their place at most, and two outcomes.
-/

namespace Lox

variable {α β : Type}

/-! ## 1. Bindings -/

/-- Bindings of the same names, in one order, to values that `V` relates. -/
structure BindingsInto (V : α → β → Prop) (b : Bindings α) (b' : Bindings β) : Prop where
  names : b'.names = b.names
  find? : ∀ n, Option.Rel V (b.find? n) (b'.find? n)

namespace BindingsInto

variable {V W : α → β → Prop} {b : Bindings α} {b' : Bindings β}

theorem nil : BindingsInto V [] [] := ⟨rfl, fun _ => .none⟩

theorem mono (h : BindingsInto V b b') (hVW : ∀ a a', V a a' → W a a') : BindingsInto W b b' := by
  refine ⟨h.names, fun n => ?_⟩
  have hfind := h.find? n
  generalize b.find? n = x, b'.find? n = x' at hfind ⊢
  cases hfind with
  | none => exact .none
  | some h => exact .some (hVW _ _ h)

theorem binds (h : BindingsInto V b b') (n : String) : b'.binds n = b.binds n := by
  have hfind := h.find? n
  unfold Bindings.binds
  generalize b.find? n = x, b'.find? n = x' at hfind ⊢
  cases hfind <;> rfl

theorem put (h : BindingsInto V b b') (n : String) {a : α} {a' : β} (ha : V a a') :
    BindingsInto V (b.put n a) (b'.put n a') := by
  refine ⟨?_, fun m => ?_⟩
  · rw [Bindings.names_put, Bindings.names_put, h.binds, h.names]
  · rw [Bindings.find?_put, Bindings.find?_put]
    by_cases hn : n = m
    · rw [if_pos hn, if_pos hn]
      exact .some ha
    · rw [if_neg hn, if_neg hn]
      exact h.find? m

theorem single (n : String) {a : α} {a' : β} (h : V a a') : BindingsInto V [(n, a)] [(n, a')] :=
  nil.put n h

theorem ofPairs {ps : List (String × α)} {ps' : List (String × β)}
    (h : List.Forall₂ (fun p p' => p'.1 = p.1 ∧ V p.2 p'.2) ps ps') :
    BindingsInto V (Bindings.ofPairs ps) (Bindings.ofPairs ps') := by
  have hfold : ∀ {b : Bindings α} {b' : Bindings β}, BindingsInto V b b' →
      BindingsInto V (ps.foldl (fun b p => b.put p.1 p.2) b)
        (ps'.foldl (fun b p => b.put p.1 p.2) b') := by
    induction h with
    | nil => exact id
    | @cons p p' _ _ hp _ ih =>
      obtain ⟨n, a'⟩ := p'
      obtain ⟨rfl, ha⟩ := hp
      exact fun hb => ih (hb.put p.1 ha)
  exact hfold nil

end BindingsInto

/-! ## 2. Environments -/

/-- **Two environments.** The second has added frames where the slots say so; outside of all slots the
    frames are the same. -/
inductive EnvInto (φ : List FrameId) : List Slot → Env → Env → Prop where
  | base {env env'} (h : List.Forall₂ (fun f f' => φ[f]? = some f') env env') : EnvInto φ [] env env'
  | shared {slots env env' f f'} (hf : φ[f]? = some f') (h : EnvInto φ slots env env') :
      EnvInto φ (.shared :: slots) (f :: env) (f' :: env')
  | added {slots env env' f'} (h : EnvInto φ slots env env') :
      EnvInto φ (.added :: slots) env (f' :: env')

theorem frame_later {φ ψ : List FrameId} (hφ : φ <+: ψ) {f : FrameId} {f' : FrameId}
    (h : φ[f]? = some f') : ψ[f]? = some f' := by
  obtain ⟨more, rfl⟩ := hφ
  exact (List.getElem?_append_left (List.getElem?_eq_some_iff.mp h).1).trans h

namespace EnvInto

variable {φ ψ : List FrameId} {slots : List Slot} {env env' : Env}

theorem later (h : EnvInto φ slots env env') (hφ : φ <+: ψ) : EnvInto ψ slots env env' := by
  induction h with
  | base h => exact .base (h.imp fun _ _ hf => frame_later hφ hf)
  | shared hf _ ih => exact .shared (frame_later hφ hf) ih
  | added _ ih => exact .added ih

/-- **The frame at a distance** is the one at the distance in the written-out program. -/
theorem at_some (h : EnvInto φ slots env env') {d : Nat} {f : FrameId} (hd : env[d]? = some f) :
    ∃ f', env'[distanceIn slots d]? = some f' ∧ φ[f]? = some f' := by
  induction h generalizing d with
  | base h =>
    induction h generalizing d with
    | nil => cases hd
    | cons hf _ ih =>
      cases d with
      | zero =>
        cases hd
        exact ⟨_, rfl, hf⟩
      | succ d => exact ih hd
  | shared hf _ ih =>
    cases d with
    | zero =>
      cases hd
      exact ⟨_, rfl, hf⟩
    | succ d => exact ih hd
  | added _ ih => exact ih hd

/-- The innermost frame of both, where none is added in front. -/
theorem innermost (h : EnvInto φ slots env env') (hin : Innermost slots) :
    env = [] ∧ env' = [] ∨
      ∃ f outer f' outer', env = f :: outer ∧ env' = f' :: outer' ∧ φ[f]? = some f' := by
  cases h with
  | base h =>
    cases h with
    | nil => exact .inl ⟨rfl, rfl⟩
    | cons hf _ => exact .inr ⟨_, _, _, _, rfl, rfl, hf⟩
  | shared hf _ => exact .inr ⟨_, _, _, _, rfl, rfl, hf⟩
  | added _ => exact absurd rfl hin

end EnvInto

/-! ## 3. Values -/

section Values

variable (R : Rewriting) (φ : List FrameId)

/-- Two functions. Behind the frames `inner`, which a call puts in front first, the second is the first
    written out. -/
structure ClosureInto (inner : List Slot) (f f' : Closure) : Prop where
  name : f'.name = f.name
  isInitializer : f'.isInitializer = f.isInitializer
  code : ∃ slots, EnvInto φ slots f.env f'.env ∧ CodeInto R (inner ++ slots) f.code f'.code ∧
    (f.isInitializer = true → Innermost (inner ++ slots))

/-- Two functions. -/
abbrev FunctionInto : Closure → Closure → Prop := ClosureInto R φ []

/-- Two methods, which are bound to an instance before they are called. -/
abbrev MethodInto : Closure → Closure → Prop := ClosureInto R φ [.shared]

/-- Two classes: by each name they find methods that are related. -/
structure ClassInto (c c' : Class) : Prop where
  id : c'.id = c.id
  name : c'.name = c.name
  method? : ∀ n, Option.Rel (MethodInto R φ) (c.method? n) (c'.method? n)

/-- **Two values.** -/
inductive ValueInto : Value → Value → Prop where
  | nil : ValueInto .nil .nil
  | bool {b} : ValueInto (.bool b) (.bool b)
  | number {x} : ValueInto (.number x) (.number x)
  | text {s} : ValueInto (.text s) (.text s)
  | native {f} : ValueInto (.native f) (.native f)
  | function {id f f'} (h : FunctionInto R φ f f') : ValueInto (.function id f) (.function id f')
  | ofClass {c c'} (h : ClassInto R φ c c') : ValueInto (.ofClass c) (.ofClass c')
  | object {o c c'} (h : ClassInto R φ c c') : ValueInto (.object o c) (.object o c')

end Values

section Facts

variable {R : Rewriting} {φ ψ : List FrameId}

theorem ClosureInto.arity {inner : List Slot} {f f' : Closure} (h : ClosureInto R φ inner f f') :
    f'.code.arity = f.code.arity := by
  obtain ⟨_, _, hcode, _⟩ := h.code
  exact hcode.arity

theorem ClosureInto.later {inner : List Slot} {f f' : Closure} (h : ClosureInto R φ inner f f')
    (hφ : φ <+: ψ) : ClosureInto R ψ inner f f' := by
  obtain ⟨slots, henv, hcode⟩ := h.code
  exact ⟨h.name, h.isInitializer, slots, henv.later hφ, hcode⟩

theorem ClassInto.later {c c' : Class} (h : ClassInto R φ c c') (hφ : φ <+: ψ) :
    ClassInto R ψ c c' := by
  refine ⟨h.id, h.name, fun n => ?_⟩
  have hfind := h.method? n
  generalize c.method? n = x, c'.method? n = x' at hfind ⊢
  cases hfind with
  | none => exact .none
  | some hm => exact .some (hm.later hφ)

/-- Values stay related while frames are added. -/
theorem ValueInto.later {v v' : Value} (h : ValueInto R φ v v') (hφ : φ <+: ψ) :
    ValueInto R ψ v v' := by
  cases h with
  | nil => exact .nil
  | bool => exact .bool
  | number => exact .number
  | text => exact .text
  | native => exact .native
  | function h => exact .function (h.later hφ)
  | ofClass h => exact .ofClass (h.later hφ)
  | object h => exact .object (h.later hφ)

theorem ClassInto.arity {c c' : Class} (h : ClassInto R φ c c') : c'.arity = c.arity := by
  have hfind := h.method? initializerName
  unfold Class.arity
  generalize c.method? initializerName = x, c'.method? initializerName = x' at hfind ⊢
  cases hfind with
  | none => rfl
  | some h => exact h.arity

/-- A class over another one. -/
theorem ClassInto.over {id : Identity} {name : String} {parent parent' : Option Class}
    {own own' : Bindings Closure} (hparent : Option.Rel (ClassInto R φ) parent parent')
    (hown : BindingsInto (MethodInto R φ) own own') :
    ClassInto R φ (.mk id name parent own) (.mk id name parent' own') := by
  refine ⟨rfl, rfl, fun n => ?_⟩
  have hfind := hown.find? n
  cases hparent with
  | none => exact hfind
  | @some c c' hc =>
    rw [Class.method?, Class.method?]
    generalize own.find? n = x, own'.find? n = x' at hfind ⊢
    cases hfind with
    | none => exact hc.method? n
    | some h => exact .some h

namespace ValueInto

variable {v v' w w' : Value}

theorem isTruthy (h : ValueInto R φ v v') : v'.isTruthy = v.isTruthy := by
  cases h <;> rfl

theorem typeName (h : ValueInto R φ v v') : v'.typeName = v.typeName := by
  cases h <;> rfl

theorem display (h : ValueInto R φ v v') : v'.display = v.display := by
  cases h with
  | function h => simp only [Value.display, h.name]
  | ofClass h | object h => simp only [Value.display, h.name]
  | _ => rfl

theorem arity? (h : ValueInto R φ v v') : v'.arity? = v.arity? := by
  cases h with
  | function h => exact congrArg some h.arity
  | ofClass h => exact congrArg some h.arity
  | _ => rfl

theorem same_eq (h : ValueInto R φ v v') (hw : ValueInto R φ w w') : v'.same w' = v.same w := by
  cases h with
  | ofClass hc =>
    cases hw with
    | ofClass hd => simp only [Value.same, hc.id, hd.id]
    | _ => rfl
  | _ => cases hw <;> rfl

end ValueInto

end Facts

/-! ## 4. Machines -/

/-- **Two machines.** -/
structure MachineInto (R : Rewriting) (φ : List FrameId) (m m' : Machine) : Prop where
  count : m.store.frames.size = φ.length
  apart : φ.Nodup
  bounded : ∀ f' ∈ φ, f' < m'.store.frames.size
  /-- The global frames. -/
  global : φ[Store.globalFrame]? = some Store.globalFrame
  frames : ∀ f f', φ[f]? = some f' →
    BindingsInto (ValueInto R φ) (m.store.frame f) (m'.store.frame f')
  objects : m'.store.objects.size = m.store.objects.size
  fields : ∀ o, BindingsInto (ValueInto R φ) (m.store.fields o) (m'.store.fields o)
  nextIdentity : m'.store.nextIdentity = m.store.nextIdentity
  sink : m'.sink = m.sink
  input : m'.input = m.input
  now : m'.now = m.now
  clock : m'.clock = m.clock
  /-- A reference is bound in the frame that it means in the short program. -/
  refs : ∀ {slots i i'}, R.ref slots i i' →
    m'.distances.find? i' = (m.distances.find? i).map (distanceIn slots)
  /-- The frame of `this` lies next to that of `super`. -/
  supers : ∀ {slots i i'}, R.super slots i i' →
    m'.distances.find? i' = (m.distances.find? i).map (distanceIn slots) ∧
      ∀ d, m.distances.find? i = some (d + 1) → distanceIn slots (d + 1) = distanceIn slots d + 1

namespace MachineInto

variable {R : Rewriting} {φ : List FrameId} {m m' : Machine}

theorem names (h : MachineInto R φ m m') :
    m'.store.names Store.globals = m.store.names Store.globals := by
  have hframe := (h.frames _ _ h.global).names
  simp only [Store.globals, Store.names, hframe]

/-- The frame at the end of `φ` is new. -/
theorem push_apart (h : MachineInto R φ m m') : (φ ++ [m'.store.frames.size]).Nodup := by
  refine List.nodup_append.mpr ⟨h.apart, List.nodup_singleton _, fun f hf g hg => ?_⟩
  rw [List.mem_singleton.mp hg]
  exact Nat.ne_of_lt (h.bounded f hf)

theorem defineIn (h : MachineInto R φ m m') {f f' : FrameId} (hf : φ[f]? = some f') (n : String)
    {v v' : Value} (hv : ValueInto R φ v v') :
    MachineInto R φ { m with store := m.store.defineIn f n v }
      { m' with store := m'.store.defineIn f' n v' } where
  __ := h
  count := Array.size_modify.trans h.count
  bounded g hg := (h.bounded g hg).trans_eq Array.size_modify.symm
  frames g g' hg := by
    have hlt : g < m.store.frames.size := h.count ▸ (List.getElem?_eq_some_iff.mp hg).1
    have hlt' : g' < m'.store.frames.size := h.bounded g' (List.mem_of_getElem? hg)
    rw [Store.frame_defineIn, Store.frame_defineIn]
    by_cases hfg : f = g
    · subst hfg
      cases Option.some.inj (hf.symm.trans hg)
      rw [if_pos ⟨rfl, hlt⟩, if_pos ⟨rfl, hlt'⟩]
      exact (h.frames f f' hf).put n hv
    · have hfg' : f' ≠ g' := by
        rintro rfl
        exact hfg ((List.getElem?_inj (List.getElem?_eq_some_iff.mp hf).1 h.apart).mp (hf.trans hg.symm))
      rw [if_neg (fun hg => hfg hg.1), if_neg (fun hg => hfg' hg.1)]
      exact h.frames g g' hg

/-- A frame that both have. -/
theorem push (h : MachineInto R φ m m') {b b' : Bindings Value}
    (hb : BindingsInto (ValueInto R φ) b b') :
    MachineInto R (φ ++ [m'.store.frames.size])
      { m with store := { m.store with frames := m.store.frames.push b } }
      { m' with store := { m'.store with frames := m'.store.frames.push b' } } where
  __ := h
  count := by simp [h.count]
  apart := h.push_apart
  bounded g hg := by
    rw [Array.size_push]
    cases List.mem_append.mp hg with
    | inl hg => exact Nat.lt_succ_of_lt (h.bounded g hg)
    | inr hg => exact List.mem_singleton.mp hg ▸ Nat.lt_succ_self _
  frames g g' hg := by
    have hlater : ∀ v v', ValueInto R φ v v' → ValueInto R (φ ++ [m'.store.frames.size]) v v' :=
      fun _ _ hv => hv.later (List.prefix_append _ _)
    rw [Store.frame_push, Store.frame_push, h.count]
    by_cases hnew : g = φ.length
    · subst hnew
      rw [List.getElem?_concat_length] at hg
      cases hg
      rw [if_pos rfl, if_pos rfl]
      exact hb.mono hlater
    · have hlt : g < φ.length := by
        have hle := (List.getElem?_eq_some_iff.mp hg).1
        rw [List.length_append, List.length_singleton] at hle
        exact Nat.lt_of_le_of_ne (Nat.le_of_lt_succ hle) hnew
      rw [List.getElem?_append_left hlt] at hg
      rw [if_neg hnew, if_neg (Nat.ne_of_lt (h.bounded g' (List.mem_of_getElem? hg)))]
      exact (h.frames g g' hg).mono hlater
  fields o := (h.fields o).mono fun _ _ hv => hv.later (List.prefix_append _ _)
  global := frame_later (List.prefix_append _ _) h.global

/-- A frame that the written-out program adds. -/
theorem pushAdded (h : MachineInto R φ m m') (b : Bindings Value) :
    MachineInto R φ m
      { m' with store := { m'.store with frames := m'.store.frames.push b } } where
  __ := h
  bounded g hg := by
    rw [Array.size_push]
    exact Nat.lt_succ_of_lt (h.bounded g hg)
  frames g g' hg := by
    rw [Store.frame_push, if_neg (Nat.ne_of_lt (h.bounded g' (List.mem_of_getElem? hg)))]
    exact h.frames g g' hg

theorem setField (h : MachineInto R φ m m') (o : ObjectId) (n : String) {v v' : Value}
    (hv : ValueInto R φ v v') :
    MachineInto R φ { m with store := m.store.setField o n v }
      { m' with store := m'.store.setField o n v' } where
  __ := h
  objects := by simp only [Store.setField, Array.size_modify, h.objects]
  fields q := by
    rw [Store.fields_setField, Store.fields_setField, h.objects]
    by_cases hq : o = q ∧ q < m.store.objects.size
    · rw [if_pos hq, if_pos hq]
      exact (h.fields q).put n hv
    · rw [if_neg hq, if_neg hq]
      exact h.fields q

theorem newObject (h : MachineInto R φ m m') :
    MachineInto R φ { m with store := m.store.newObject.2 }
      { m' with store := m'.store.newObject.2 } where
  __ := h
  objects := by simp only [Store.newObject, Array.size_push, h.objects]
  fields o := by
    rw [Store.fields_newObject, Store.fields_newObject]
    exact h.fields o

theorem newIdentity (h : MachineInto R φ m m') :
    MachineInto R φ { m with store := m.store.newIdentity.2 }
      { m' with store := m'.store.newIdentity.2 } where
  __ := h
  nextIdentity := congrArg (· + 1) h.nextIdentity

end MachineInto

/-! ## 5. Outcomes -/

/-- **Two errors of programs**, which differ in their place at most. -/
def ErrorInto (R : Rewriting) (e e' : RuntimeError) : Prop :=
  ∃ p', R.pos e.pos p' ∧ e' = e.mapPos fun _ => p'

/-- **What two computations come to**: values that `V` relates, or errors of the programs. -/
inductive OutcomeInto (R : Rewriting) (V : α → β → Prop) : Except Stop α → Except Stop β → Prop where
  | ok {a a'} (h : V a a') : OutcomeInto R V (.ok a) (.ok a')
  | error {e e'} (h : ErrorInto R e e') : OutcomeInto R V (.error (.error e)) (.error (.error e'))

/-- How two statements finished. -/
inductive SignalInto (R : Rewriting) (φ : List FrameId) : Signal → Signal → Prop where
  | normal : SignalInto R φ .normal .normal
  | ret {v v'} (h : ValueInto R φ v v') : SignalInto R φ (.ret v) (.ret v')
  | leave : SignalInto R φ .leave .leave
  | next : SignalInto R φ .next .next

namespace ErrorInto

variable {R : Rewriting} {p p' : Position}

theorem type {message : String} (h : R.pos p p') : ErrorInto R (.type message p) (.type message p') :=
  ⟨p', h, rfl⟩

theorem divisionByZero (h : R.pos p p') : ErrorInto R (.divisionByZero p) (.divisionByZero p') :=
  ⟨p', h, rfl⟩

theorem undefinedVariable {n : String} (h : R.pos p p') :
    ErrorInto R (.undefinedVariable n p) (.undefinedVariable n p') := ⟨p', h, rfl⟩

theorem undefinedProperty {n : String} (h : R.pos p p') :
    ErrorInto R (.undefinedProperty n p) (.undefinedProperty n p') := ⟨p', h, rfl⟩

theorem arity {k l : Nat} (h : R.pos p p') : ErrorInto R (.arity k l p) (.arity k l p') :=
  ⟨p', h, rfl⟩

theorem native {message : String} (h : R.pos p p') :
    ErrorInto R (.native message p) (.native message p') := ⟨p', h, rfl⟩

end ErrorInto

end Lox
