import Lox.Proofs.Machine.Composition

/-!
# Instances and their classes

An instance is an address and a class. Its fields lie in the store, under the address; its methods are
those of its class, and a class never changes once a declaration has made it.

* `Class.Made`: a class that a declaration of the history made, and so for its superclass, which was there
  before it. `Genuine`: a value whose classes are so, and whose class is that of its address.
* `Sets H m log m'`: **the fields that calls of the history set on the way from `m` to `m'`.** Between them
  no field changes. `Sets.find?`: what a field holds is what it was set to last.
* `Handles`: a computation that finds genuine values in the store and leaves genuine values there, and
  sets fields by calls of the history only. `handlesAt`: every call of a history is one.
-/

namespace Lox

variable {α β : Type} {W H : History} {cs cs' cs'' : List Class} {m m' m'' : Machine} {n : Nat}

/-! ## 1. Classes and values -/

theorem Bindings.mem_of_find? {b : Bindings α} {x : String} {a : α} (h : b.find? x = some a) :
    (x, a) ∈ b := by
  induction b with
  | nil => cases h
  | cons p rest ih =>
    rw [find?] at h
    split at h
    · next hp =>
      cases h
      exact hp ▸ List.mem_cons_self
    · exact List.mem_cons_of_mem _ (ih h)

/-- Of pairs with one name, the last counts. -/
theorem Bindings.find?_ofPairs (ps : List (String × α)) (x : String) :
    (Bindings.ofPairs ps).find? x = (ps.reverse.find? fun p => p.1 = x).map Prod.snd := by
  induction ps using List.reverseRecOn with
  | nil => rfl
  | append_singleton ps p ih =>
    have hlast : ofPairs (ps ++ [p]) = (ofPairs ps).put p.1 p.2 := List.foldl_append
    rw [hlast, find?_put, ih, List.reverse_append, List.reverse_singleton, List.singleton_append,
      List.find?_cons]
    by_cases hp : p.1 = x <;> simp [hp]

/-- **A class that a declaration of the history made.** Its superclass was made before it. -/
inductive Class.Made (W : History) : Class → Prop where
  | base {n name methods env m} (h : W ⟨n + 1, .execute (.classDecl name none methods) env, m⟩) :
      Made W (.mk m.store.nextIdentity name.lexeme none (.ofPairs (methods.map (methodOf env))))
  | derived {n name ref methods env m c f}
      (h : W ⟨n + 1, .execute (.classDecl name (some ref) methods) env, m⟩)
      (hc : Inherits ⟨n + 1, .execute (.classDecl name (some ref) methods) env, m⟩
        (.classDecl name (some ref) methods) env c f)
      (hmade : Made W c) (hid : c.id < m.store.nextIdentity) :
      Made W (.mk m.store.nextIdentity name.lexeme (some c)
        (.ofPairs (methods.map (methodOf (f :: env)))))

/-- **A value as the program made it.** `cs` has the class of each instance, in the order of their
    addresses. -/
def Genuine (W : History) (cs : List Class) (m : Machine) : Value → Prop
  | .ofClass c => c.Made W ∧ c.id < m.store.nextIdentity
  | .object o c => cs[o]? = some c
  | .nil | .bool _ | .number _ | .text _ | .native _ | .function _ _ => True

/-- A variable or a field holds a value. -/
def Store.Holds (s : Store) (u : Value) : Prop :=
  (∃ f x, (s.frame f).find? x = some u) ∨ ∃ o x, (s.fields o).find? x = some u

/-- **Each instance has its class**, and variables and fields hold values as the program made them. -/
structure Populated (W : History) (cs : List Class) (m : Machine) : Prop where
  size : m.store.objects.size = cs.length
  made : ∀ c ∈ cs, c.Made W
  holds : ∀ u, m.store.Holds u → Genuine W cs m u

theorem Genuine.later {u : Value} (h : Genuine W cs m u) (hcs : cs <+: cs')
    (hid : m.store.nextIdentity ≤ m'.store.nextIdentity) : Genuine W cs' m' u := by
  cases u with
  | ofClass c => exact ⟨h.1, Nat.lt_of_lt_of_le h.2 hid⟩
  | object o c =>
    obtain ⟨later, rfl⟩ := hcs
    exact (List.getElem?_append_left (List.getElem?_eq_some_iff.mp h).1).trans h
  | nil | bool | number | text | native | function => trivial

/-! ## 2. Fields that are set -/

/-- A field of an instance, and what it is set to. -/
structure Setting where
  object : ObjectId
  name : String
  value : Value

/-- **A visit sets a field**, on the machine on which its object and its value are there. -/
inductive SetsField : Visit → Setting → Machine → Prop where
  | intro {n object name value env m o c m₁ v m₂}
      (ho : (evaluate n object env).run m = (.ok (.object o c), m₁))
      (hv : (evaluate n value env).run m₁ = (.ok v, m₂)) :
      SetsField ⟨n + 1, .evaluate (.set object name value) env, m⟩ ⟨o, name.lexeme, v⟩ m₂

/-- **The fields that were set on the way** from one machine to another, the last first. -/
inductive Sets (H : History) (m : Machine) : List Setting → Machine → Prop where
  | none : Sets H m [] m
  /-- Whatever happens, no field changes. -/
  | other {log m₁ m₂} (h : Sets H m log m₁)
      (hfields : ∀ o, m₂.store.fields o = m₁.store.fields o) : Sets H m log m₂
  /-- A visit of the history sets a field. -/
  | field {log u w m₁} (h : Sets H m log m₁) (hu : H u) (hw : SetsField u w m₁)
      (hsize : w.object < m₁.store.objects.size) :
      Sets H m (w :: log) { m₁ with store := m₁.store.setField w.object w.name w.value }

/-- What a field was set to last. -/
def lastSet (log : List Setting) (o : ObjectId) (x : String) : Option Value :=
  (log.find? fun w => w.object = o ∧ w.name = x).map Setting.value

namespace Sets

variable {log log' : List Setting}

theorem trans (h : Sets H m log m') (h' : Sets H m' log' m'') : Sets H m (log' ++ log) m'' := by
  induction h' with
  | none => exact h
  | other _ hfields ih => exact .other ih hfields
  | field _ hu hw hsize ih => exact .field ih hu hw hsize

theorem mono (h : Sets H m log m') (hsub : ∀ v, H v → W v) : Sets W m log m' := by
  induction h with
  | none => exact .none
  | other _ hfields ih => exact .other ih hfields
  | field _ hu hw hsize ih => exact .field ih (hsub _ hu) hw hsize

/-- **A field holds what it was set to last**, and else what it held before. -/
theorem find? (h : Sets H m log m') (o : ObjectId) (x : String) :
    (m'.store.fields o).find? x = (lastSet log o x).orElse fun _ => (m.store.fields o).find? x := by
  induction h with
  | none => rfl
  | other _ hfields ih => rw [hfields, ih]
  | @field log u w m₁ _ _ _ hsize ih =>
    rw [Store.fields_setField, lastSet, List.find?_cons]
    by_cases ho : w.object = o
    · subst ho
      rw [if_pos ⟨rfl, hsize⟩, Bindings.find?_put]
      by_cases hx : w.name = x
      · simp [hx]
      · simpa [hx, lastSet] using ih
    · rw [if_neg fun h => ho h.1]
      simpa [ho, lastSet] using ih

/-- Each field that was set was set by a visit. -/
theorem mem (h : Sets H m log m') {w : Setting} (hw : w ∈ log) : ∃ u m₁, H u ∧ SetsField u w m₁ := by
  induction h with
  | none => cases hw
  | other _ _ ih => exact ih hw
  | field _ hu hset _ ih =>
    cases hw with
    | head => exact ⟨_, _, hu, hset⟩
    | tail _ hw => exact ih hw

end Sets

/-! ## 3. From one machine to a later one -/

/-- **What a step of a run leaves behind**: instances keep their classes, and fields change only where
    calls of the history set them. -/
structure Since (W H : History) (cs : List Class) (m : Machine) (cs' : List Class) (m' : Machine) :
    Prop where
  populated : Populated W cs' m'
  classes : cs <+: cs'
  identities : m.store.nextIdentity ≤ m'.store.nextIdentity
  sets : ∃ log, Sets H m log m'

namespace Since

theorem refl (h : Populated W cs m) : Since W H cs m cs m :=
  ⟨h, List.prefix_rfl, Nat.le_refl _, [], .none⟩

theorem trans (h : Since W H cs m cs' m') (h' : Since W H cs' m' cs'' m'') :
    Since W H cs m cs'' m'' := by
  obtain ⟨log, hlog⟩ := h.sets
  obtain ⟨log', hlog'⟩ := h'.sets
  exact ⟨h'.populated, h.classes.trans h'.classes, Nat.le_trans h.identities h'.identities,
    _, hlog.trans hlog'⟩

theorem genuine (h : Since W H cs m cs' m') {u : Value} (hu : Genuine W cs m u) :
    Genuine W cs' m' u :=
  hu.later h.classes h.identities

/-- **No instance is changed**, and what variables hold is genuine. -/
theorem of_frames (h : Populated W cs m) (hobjects : m'.store.objects = m.store.objects)
    (hid : m.store.nextIdentity ≤ m'.store.nextIdentity)
    (hframes : ∀ f x u, (m'.store.frame f).find? x = some u →
      m.store.Holds u ∨ Genuine W cs m u) : Since W H cs m cs m' := by
  have hfields : ∀ o, m'.store.fields o = m.store.fields o := by
    intro o
    rw [Store.fields, hobjects]
    rfl
  have hlater : ∀ {u}, Genuine W cs m u → Genuine W cs m' u := fun hu =>
    hu.later List.prefix_rfl hid
  refine ⟨⟨by rw [hobjects, h.size], h.made, fun u hu => hlater ?_⟩, List.prefix_rfl, hid, [],
    .other .none hfields⟩
  rcases hu with ⟨f, x, hu⟩ | ⟨o, x, hu⟩
  · exact (hframes f x u hu).elim (h.holds u) id
  · rw [hfields] at hu
    exact h.holds u (.inr ⟨o, x, hu⟩)

theorem of_store (h : Populated W cs m) (hstore : m'.store = m.store) : Since W H cs m cs m' :=
  .of_frames h (by rw [hstore]) (by rw [hstore]) fun f x _ hu => .inl (.inl ⟨f, x, hstore ▸ hu⟩)

theorem newIdentity (h : Populated W cs m) :
    Since W H cs m cs { m with store := m.store.newIdentity.2 } :=
  .of_frames h rfl (Nat.le_succ _) fun f x _ hu => .inl (.inl ⟨f, x, hu⟩)

theorem defineIn (h : Populated W cs m) (f : FrameId) (name : String) {v : Value}
    (hv : Genuine W cs m v) :
    Since W H cs m cs { m with store := m.store.defineIn f name v } := by
  refine .of_frames h rfl (Nat.le_refl _) fun g x u hu => ?_
  rw [Store.frame_defineIn] at hu
  split at hu
  · rw [Bindings.find?_put] at hu
    split at hu
    · cases hu
      exact .inr hv
    · exact .inl (.inl ⟨g, x, hu⟩)
  · exact .inl (.inl ⟨g, x, hu⟩)

theorem define (h : Populated W cs m) (env : Env) (name : String) {v : Value}
    (hv : Genuine W cs m v) :
    Since W H cs m cs { m with store := m.store.define env name v } := by
  cases env with
  | nil => exact .refl h
  | cons f outer => exact .defineIn h f name hv

theorem push (h : Populated W cs m) {b : Bindings Value}
    (hb : ∀ x u, b.find? x = some u → Genuine W cs m u) :
    Since W H cs m cs { m with store := { m.store with frames := m.store.frames.push b } } := by
  refine .of_frames h rfl (Nat.le_refl _) fun g x u hu => ?_
  rw [Store.frame_push] at hu
  split at hu
  · exact .inr (hb x u hu)
  · exact .inl (.inl ⟨g, x, hu⟩)

theorem pushOne (h : Populated W cs m) (name : String) {v : Value} (hv : Genuine W cs m v) :
    Since W H cs m cs
      { m with store := { m.store with frames := m.store.frames.push [(name, v)] } } := by
  refine .push h fun x u hu => ?_
  rw [Bindings.find?] at hu
  split at hu
  · cases hu
    exact hv
  · cases hu

/-- **A new instance** has its class, and no fields. -/
theorem newObject (h : Populated W cs m) {c : Class} (hc : c.Made W) :
    Since W H cs m (cs ++ [c]) { m with store := m.store.newObject.2 } := by
  have hfields := Store.fields_newObject m.store
  refine ⟨⟨?_, fun d hd => ?_, fun u hu => ?_⟩, List.prefix_append _ _, Nat.le_refl _, [],
    .other .none hfields⟩
  · show (m.store.objects.push []).size = _
    rw [Array.size_push, List.length_append, h.size]
    rfl
  · rcases List.mem_append.mp hd with hd | hd
    · exact h.made d hd
    · exact List.mem_singleton.mp hd ▸ hc
  · refine Genuine.later (h.holds u ?_) (List.prefix_append _ _) (Nat.le_refl _)
    rcases hu with hu | ⟨o, x, hu⟩
    · exact .inl hu
    · exact .inr ⟨o, x, by rwa [hfields] at hu⟩

/-- The class of a new instance. -/
theorem newest (h : Populated W cs m) (c : Class) : (cs ++ [c])[m.store.objects.size]? = some c := by
  rw [h.size, List.getElem?_append_right (Nat.le_refl _), Nat.sub_self]
  rfl

/-- **A field is set** by a visit of the history. -/
theorem setField (h : Populated W cs m) {u : Visit} {w : Setting} {c : Class} (hu : H u)
    (hw : SetsField u w m) (hobject : cs[w.object]? = some c) (hvalue : Genuine W cs m w.value) :
    Since W H cs m cs { m with store := m.store.setField w.object w.name w.value } := by
  have hsize : w.object < m.store.objects.size :=
    h.size ▸ (List.getElem?_eq_some_iff.mp hobject).1
  refine ⟨⟨Array.size_modify.trans h.size, h.made, fun v hv => ?_⟩, List.prefix_rfl, Nat.le_refl _, [w],
    .field .none hu hw hsize⟩
  show Genuine W cs m v
  rcases hv with ⟨f, x, hv⟩ | ⟨o, x, hv⟩
  · exact h.holds v (.inl ⟨f, x, hv⟩)
  · rw [Store.fields_setField] at hv
    split at hv
    · rw [Bindings.find?_put] at hv
      split at hv
      · cases hv
        exact hvalue
      · exact h.holds v (.inr ⟨o, x, hv⟩)
    · exact h.holds v (.inr ⟨o, x, hv⟩)

end Since

/-! ## 4. Computations -/

/-- **A computation that leaves things as they should be**, and whose result is `ok`. -/
def Handles (W H : History) (cs : List Class) (m : Machine) (x : Run α)
    (ok : List Class → Machine → α → Prop) : Prop :=
  ∃ cs', Since W H cs m cs' (x.run m).2 ∧ ∀ a, (x.run m).1 = .ok a → ok cs' (x.run m).2 a

namespace Handles

variable {x : Run α} {f : α → Run β} {ok : List Class → Machine → α → Prop}
  {ok' : List Class → Machine → β → Prop}

theorem of_ok {a : α} (hx : x.run m = (.ok a, m')) (h : Since W H cs m cs' m')
    (ha : ok cs' m' a) : Handles W H cs m x ok := by
  refine ⟨cs', ?_, fun b hb => ?_⟩
  · rw [hx]
    exact h
  · rw [hx] at hb ⊢
    cases hb
    exact ha

theorem of_error {e : Stop} (hx : x.run m = (.error e, m')) (h : Since W H cs m cs' m') :
    Handles W H cs m x ok := by
  refine ⟨cs', ?_, fun b hb => ?_⟩
  · rw [hx]
    exact h
  · rw [hx] at hb
    cases hb

theorem pure {a : α} (h : Populated W cs m) (ha : ok cs m a) : Handles W H cs m (Pure.pure a) ok :=
  .of_ok rfl (.refl h) ha

/-- A computation that stops at once. -/
theorem stops {e : Stop} (h : Populated W cs m) (hx : x.run m = (.error e, m)) :
    Handles W H cs m x ok := .of_error hx (.refl h)

theorem congr {y : Run α} (hrun : x.run m = y.run m) (h : Handles W H cs m y ok) :
    Handles W H cs m x ok := by
  obtain ⟨cs', hsince, hok⟩ := h
  rw [← hrun] at hsince hok
  exact ⟨cs', hsince, hok⟩

/-- What is known when the computation came to a result. -/
theorem of_run {a : α} (h : Handles W H cs m x ok) (hx : x.run m = (.ok a, m')) :
    ∃ cs', Since W H cs m cs' m' ∧ ok cs' m' a := by
  obtain ⟨cs', hsince, hok⟩ := h
  rw [hx] at hsince hok
  exact ⟨cs', hsince, hok a rfl⟩

/-- **One computation after another.** -/
theorem bind (hx : Handles W H cs m x ok)
    (hf : ∀ a m' cs', x.run m = (.ok a, m') → Since W H cs m cs' m' → ok cs' m' a →
      Handles W H cs' m' (f a) ok') : Handles W H cs m (x >>= f) ok' := by
  cases hrun : x.run m with
  | mk r m' =>
    cases r with
    | ok a =>
      obtain ⟨cs', hsince, hok⟩ := hx.of_run hrun
      obtain ⟨cs'', hnext, hvalue⟩ := hf a m' cs' hrun hsince hok
      have heq := run_bind_ok (f := f) hrun
      refine ⟨cs'', ?_, fun b hb => ?_⟩
      · rw [heq]
        exact hsince.trans hnext
      · rw [heq] at hb ⊢
        exact hvalue b hb
    | error e =>
      obtain ⟨cs', hsince, -⟩ := hx
      rw [hrun] at hsince
      exact .of_error (run_bind_error hrun) hsince

end Handles

/-! ## 5. Parts that run nothing themselves -/

section Parts

theorem accessed_run (t : Token) (r : Except AccessError α) (m : Machine) :
    ∃ r', (accessed t r).run m = (r', m) ∧ ∀ a, r' = .ok a → r = .ok a := by
  cases r with
  | ok a => exact ⟨_, rfl, fun b hb => by cases hb; rfl⟩
  | error e => cases e <;> exact ⟨_, rfl, fun b hb => nomatch hb⟩

/-- **What is read in a frame** is held there. -/
theorem readAt_reads (env : Env) (d : Nat) (t : Token) (m : Machine) :
    ∃ r, (readAt env d t).run m = (r, m) ∧ ∀ v, r = .ok v → m.store.Holds v := by
  obtain ⟨r, hrun, hok⟩ := accessed_run t (m.store.getAt env d t.lexeme) m
  refine ⟨r, hrun, fun v hv => ?_⟩
  have hget := hok v hv
  unfold Store.getAt at hget
  split at hget
  · cases hget
  · next f _ =>
    split at hget
    · next u hu =>
      cases hget
      exact .inl ⟨f, _, hu⟩
    · cases hget

/-- The value of a name is held by a frame. -/
theorem Store.holds_of_get? {s : Store} {env : Env} {name : String} {v : Value}
    (h : s.get? env name = some v) : s.Holds v := by
  induction env with
  | nil => cases h
  | cons f outer ih =>
    rw [Store.get?] at h
    cases hf : (s.frame f).find? name with
    | some u =>
      rw [hf] at h
      cases h
      exact .inl ⟨f, name, hf⟩
    | none =>
      rw [hf] at h
      exact ih h

theorem lookUp_reads (ref : Reference) (env : Env) (m : Machine) :
    ∃ r, (lookUp ref env).run m = (r, m) ∧ ∀ v, r = .ok v → m.store.Holds v := by
  rw [run_lookUp]
  cases m.distances.find? ref.id with
  | some d => exact readAt_reads env d ref.token m
  | none =>
    cases hget : m.store.get? Store.globals ref.name with
    | some v => exact ⟨.ok v, rfl, fun u hu => by cases hu; exact Store.holds_of_get? hget⟩
    | none => exact ⟨_, rfl, fun u hu => nomatch hu⟩

theorem ownerOf_reads (ref : Reference) (env : Env) (m : Machine) :
    ∃ r, (ownerOf ref env).run m = (r, m) := by
  rw [run_ownerOf]
  cases m.distances.find? ref.id with
  | some d =>
    obtain ⟨r, hrun, -⟩ := accessed_run ref.token (m.store.ownerAt env d ref.name) m
    exact ⟨r, hrun⟩
  | none => cases m.store.owner? Store.globals ref.name <;> exact ⟨_, rfl⟩

/-- A computation that reads a value of the store. -/
theorem Handles.of_reads {x : Run Value} (h : Populated W cs m)
    (hx : ∃ r, x.run m = (r, m) ∧ ∀ v, r = .ok v → m.store.Holds v) :
    Handles W H cs m x (Genuine W) := by
  obtain ⟨r, hrun, hholds⟩ := hx
  cases r with
  | ok v => exact .of_ok hrun (.refl h) (h.holds v (hholds v rfl))
  | error e => exact .stops h hrun

theorem rebind_handles (h : Populated W cs m) (ref : Reference) (env : Env) {v : Value}
    (hv : Genuine W cs m v) : Handles W H cs m (rebind ref env v) (fun _ _ _ => True) := by
  obtain ⟨r, hrun⟩ := ownerOf_reads ref env m
  cases r with
  | ok f => exact .of_ok (run_bind_ok hrun) (.defineIn h f ref.name hv) trivial
  | error e => exact .of_error (run_bind_error hrun) (.refl h)

theorem newFunction_handles (h : Populated W cs m) (f : Closure) :
    Handles W H cs m (newFunction f) (Genuine W) :=
  .of_ok (newFunction_run f) (.newIdentity h) trivial

theorem bindMethod_handles (h : Populated W cs m) (f : Closure) {this : Value}
    (hthis : Genuine W cs m this) :
    Handles W H cs m (bindMethod f this) (fun _ _ _ => True) :=
  .of_ok (bindMethod_run f this) (.pushOne h thisName hthis) trivial

theorem methodOr_handles (h : Populated W cs m) (c : Class) (name : Token) {o : ObjectId} {d : Class}
    (hthis : Genuine W cs m (.object o d)) :
    Handles W H cs m (methodOr c name o d) (Genuine W) := by
  unfold methodOr
  cases c.method? name.lexeme with
  | some f =>
    exact (bindMethod_handles h f hthis).bind fun g m' cs' _ h' _ =>
      newFunction_handles h'.populated g
  | none => exact .stops h rfl

theorem property_handles (h : Populated W cs m) {o : ObjectId} {c : Class} (name : Token)
    (hthis : Genuine W cs m (.object o c)) :
    Handles W H cs m (property o c name) (Genuine W) := by
  refine .congr (run_property o c name m) ?_
  cases hfield : (m.store.fields o).find? name.lexeme with
  | some v => exact .pure h (h.holds v (.inr ⟨o, _, hfield⟩))
  | none => exact methodOr_handles h c name hthis

theorem superMethod_handles (h : Populated W cs m) (ref : Reference) (method : Token) (env : Env) :
    Handles W H cs m (superMethod ref method env) (Genuine W) := by
  refine .congr (run_superMethod ref method env m) ?_
  cases m.distances.find? ref.id with
  | none => exact .stops h rfl
  | some distance =>
    refine (Handles.of_reads h (readAt_reads env distance ref.token m)).bind
      fun v m' cs' _ h' _ => ?_
    cases v with
    | ofClass c =>
      cases distance with
      | zero => exact .stops h'.populated rfl
      | succ nearer =>
        refine (Handles.of_reads h'.populated (readAt_reads env nearer hiddenThis m')).bind
          fun u m'' cs'' _ h'' hu => ?_
        cases u with
        | object o d => exact methodOr_handles h''.populated c method hu
        | _ => exact .stops h''.populated rfl
    | _ => exact .stops h'.populated rfl

theorem assignNearest_handles (h : Populated W cs m) (name : Token) (env : Env) {v : Value}
    (hv : Genuine W cs m v) : Handles W H cs m (assignNearest name env v) (fun _ _ _ => True) := by
  refine .congr (run_assignNearest name env v m) ?_
  cases m.store.owner? env name.lexeme with
  | some f => exact .of_ok rfl (.defineIn h f name.lexeme hv) trivial
  | none => exact .stops h rfl

theorem bindClass_handles (h : Populated W cs m) (name : Token) (env : Env) {parent : Option Class}
    {own : Bindings Closure} (hmade : (Class.mk m.store.nextIdentity name.lexeme parent own).Made W) :
    Handles W H cs m (bindClass name parent own env) (fun _ _ _ => True) := by
  have hid : Handles W H cs m (allocate Store.newIdentity) (fun _ m' id =>
      id = m.store.nextIdentity ∧ m'.store.nextIdentity = m.store.nextIdentity + 1) :=
    .of_ok rfl (.newIdentity h) ⟨rfl, rfl⟩
  refine hid.bind fun id m' cs' _ h' hid => ?_
  obtain ⟨rfl, hnext⟩ := hid
  refine assignNearest_handles h'.populated name env ⟨hmade, ?_⟩
  rw [hnext]
  exact Nat.lt_succ_self _

/-- **A declaration makes a class** of the superclass that it finds. -/
theorem declareClass_handles (h : Populated W cs m) {name : Token} {superclass : Option Reference}
    {methods : List FunDecl} {env : Env}
    (hv : W ⟨n + 1, .execute (.classDecl name superclass methods) env, m⟩) :
    Handles W H cs m (declareClass name superclass methods env) (fun _ _ _ => True) := by
  have hdefine : Handles W H cs m (modifyStore (·.define env name.lexeme .nil))
      (fun cs' m' _ => cs' = cs ∧ m' = { m with store := m.store.define env name.lexeme .nil }) :=
    .of_ok rfl (.define h env name.lexeme trivial) ⟨rfl, rfl⟩
  refine hdefine.bind fun _ m₁ cs₁ _ h₁ hm₁ => ?_
  obtain ⟨rfl, hm₁⟩ := hm₁
  have hnext : m₁.store.nextIdentity = m.store.nextIdentity := by
    rw [hm₁]
    cases env <;> rfl
  cases superclass with
  | none =>
    have hnone : Handles W H cs₁ m₁ (superclassOf none env) (fun _ _ _ => True) :=
      .pure h₁.populated trivial
    refine hnone.bind fun _ m₂ cs₂ hrun h₂ _ => ?_
    cases hrun
    refine bindClass_handles h₂.populated name env ?_
    rw [hnext]
    exact .base hv
  | some ref =>
    obtain ⟨r, hlook, hholds⟩ := lookUp_reads ref env m₁
    have hsuper : Handles W H cs₁ m₁ (superclassOf (some ref) env) (fun cs' m' parent =>
        ∃ c, parent = some c ∧ Genuine W cs' m' (.ofClass c) ∧ m' = m₁) := by
      have hfound : Handles W H cs₁ m₁ (lookUp ref env)
          (fun cs' m' v => Genuine W cs' m' v ∧ m' = m₁) := by
        cases r with
        | ok v => exact .of_ok hlook (.refl h₁.populated) ⟨h₁.populated.holds v (hholds v rfl), rfl⟩
        | error e => exact .stops h₁.populated hlook
      refine hfound.bind fun v m' cs' _ h' hv' => ?_
      obtain ⟨hgenuine, rfl⟩ := hv'
      cases v with
      | ofClass c => exact .pure h'.populated ⟨c, rfl, hgenuine, rfl⟩
      | _ => exact .stops h'.populated rfl
    refine hsuper.bind fun parent m₂ cs₂ hrun h₂ hparent => ?_
    obtain ⟨c, rfl, hgenuine, rfl⟩ := hparent
    have hframe : Handles W H cs₂ m₂ (methodEnv (some c) env) (fun _ m' inner =>
        inner = m₂.store.frames.size :: env ∧ m'.store.nextIdentity = m₂.store.nextIdentity) :=
      .of_ok rfl (.pushOne h₂.populated superName hgenuine) ⟨rfl, rfl⟩
    refine hframe.bind fun inner m₃ cs₃ _ h₃ hinner => ?_
    obtain ⟨rfl, hsame⟩ := hinner
    refine bindClass_handles h₃.populated name env ?_
    rw [hsame, hnext]
    refine .derived hv ?_ hgenuine.1 (hnext ▸ hgenuine.2)
    rw [hm₁] at hrun ⊢
    exact .intro hrun

end Parts

end Lox
