import Lox.Machine

/-!
# What a reference means

A reference is looked up in the frame at the distance that scoping noted for it, or in the global frame
if it noted none.

* `Means d ref env f`: by the table `d`, the reference means the frame `f`, whatever the frames hold:
  reading and binding anew act on it and on no other.
* `means_at`, `means_global`: which frame that is.
-/

namespace Lox

/-! ## 1. One computation after another -/

section Sequences

variable {α β : Type} {m m' : Machine} {x : Run α} {f : α → Run β}

theorem run_bind_ok {a : α} (h : x.run m = (.ok a, m')) : (x >>= f).run m = (f a).run m' := by
  show ExceptT.bindCont f (x.run m).1 (x.run m).2 = _
  rw [h]
  rfl

theorem run_bind_error {e : Stop} (h : x.run m = (.error e, m')) :
    (x >>= f).run m = (.error e, m') := by
  show ExceptT.bindCont f (x.run m).1 (x.run m).2 = _
  rw [h]
  rfl

theorem run_bind_head {y : Run α} (h : x.run m = y.run m) : (x >>= f).run m = (y >>= f).run m := by
  show ExceptT.bindCont f (x.run m).1 (x.run m).2 = ExceptT.bindCont f (y.run m).1 (y.run m).2
  rw [h]

/-- What goes on alike behind the same computation comes to the same. -/
theorem run_bind_congr {g : α → Run β}
    (h : ∀ a m', x.run m = (.ok a, m') → (f a).run m' = (g a).run m') :
    (x >>= f).run m = (x >>= g).run m := by
  cases hx : x.run m with
  | mk r m₁ =>
    cases r with
    | ok a => rw [run_bind_ok hx, run_bind_ok hx, h a m₁ hx]
    | error e => rw [run_bind_error hx, run_bind_error hx]

/-- **Two computations that came to a result** did so one after the other. -/
theorem ok_of_run_bind {b : β} (h : (x >>= f).run m = (.ok b, m')) :
    ∃ a m₁, x.run m = (.ok a, m₁) ∧ (f a).run m₁ = (.ok b, m') := by
  cases hx : x.run m with
  | mk r m₁ =>
    cases r with
    | error e =>
      rw [run_bind_error hx] at h
      cases h
    | ok a =>
      rw [run_bind_ok hx] at h
      exact ⟨a, m₁, rfl, h⟩

/-- **Of two computations that failed**, one did. -/
theorem error_of_run_bind {e : Stop} (h : (x >>= f).run m = (.error e, m')) :
    x.run m = (.error e, m') ∨ ∃ a m₁, x.run m = (.ok a, m₁) ∧ (f a).run m₁ = (.error e, m') := by
  cases hx : x.run m with
  | mk r m₁ =>
    cases r with
    | error e' =>
      rw [run_bind_error hx] at h
      cases h
      exact .inl rfl
    | ok a =>
      rw [run_bind_ok hx] at h
      exact .inr ⟨a, m₁, rfl, h⟩

theorem run_map_ok {g : α → β} {a : α} (h : x.run m = (.ok a, m')) :
    (g <$> x).run m = (.ok (g a), m') := by
  rw [map_eq_pure_bind, run_bind_ok h]
  rfl

theorem run_map_error {g : α → β} {e : Stop} (h : x.run m = (.error e, m')) :
    (g <$> x).run m = (.error e, m') := by
  rw [map_eq_pure_bind, run_bind_error h]

theorem run_map_snd (g : α → β) (x : Run α) (m : Machine) : ((g <$> x).run m).2 = (x.run m).2 := by
  cases hx : x.run m with
  | mk r m' =>
    cases r with
    | ok a => rw [run_map_ok hx]
    | error e => rw [run_map_error hx]

end Sequences

/-! ## 2. One frame -/

/-- What reading a name in a frame comes to. -/
def readIn (s : Store) (f : FrameId) (t : Token) : Except Stop Value :=
  match (s.frame f).find? t.lexeme with
  | some v => .ok v
  | none => .error (.error (.undefinedVariable t.lexeme t.pos))

/-- The frame itself, if it binds a name. -/
def boundIn (s : Store) (f : FrameId) (t : Token) : Except Stop FrameId :=
  if (s.frame f).binds t.lexeme then .ok f
  else .error (.error (.undefinedVariable t.lexeme t.pos))

section Lookups

variable {m : Machine} {env : Env} {ref : Reference} {k : Nat} {f : FrameId}

theorem readAt_run {t : Token} (hf : env[k]? = some f) :
    (readAt env k t).run m = (readIn m.store f t, m) := by
  show (accessed t (m.store.getAt env k t.lexeme) : Run Value).run m = _
  cases hv : (m.store.frame f).find? t.lexeme with
  | some v =>
    have hget : m.store.getAt env k t.lexeme = .ok v := by
      simp [Store.getAt, Store.frameAt, hf, hv]
    rw [hget, readIn, hv]
    rfl
  | none =>
    have hget : m.store.getAt env k t.lexeme = .error .unbound := by
      simp [Store.getAt, Store.frameAt, hf, hv]
    rw [hget, readIn, hv]
    rfl

theorem run_lookUp (ref : Reference) (env : Env) (m : Machine) :
    (lookUp ref env).run m = (match m.distances.find? ref.id with
      | some d => readAt env d ref.token
      | none => match m.store.get? Store.globals ref.name with
        | some v => return v
        | none => raise (.undefinedVariable ref.name ref.token.pos) : Run Value).run m := rfl

theorem run_ownerOf (ref : Reference) (env : Env) (m : Machine) :
    (ownerOf ref env).run m = (match m.distances.find? ref.id with
      | some d => accessed ref.token (m.store.ownerAt env d ref.name)
      | none => match m.store.owner? Store.globals ref.name with
        | some f => return f
        | none => raise (.undefinedVariable ref.name ref.token.pos) : Run FrameId).run m := rfl

/-- A reference with a distance is looked up in that frame. -/
theorem lookUp_at (hd : m.distances.find? ref.id = some k) :
    (lookUp ref env).run m = (readAt env k ref.token).run m := by
  rw [run_lookUp, hd]

/-- One without is looked up in the global frame. -/
theorem lookUp_global (hd : m.distances.find? ref.id = none) :
    (lookUp ref env).run m = (readIn m.store Store.globalFrame ref.token, m) := by
  have hget : m.store.get? Store.globals ref.name
      = ((m.store.frame Store.globalFrame).find? ref.name).orElse fun _ => none := rfl
  rw [run_lookUp, hd]
  dsimp only
  rw [hget, readIn, Reference.name]
  cases (m.store.frame Store.globalFrame).find? ref.token.lexeme <;> rfl

theorem ownerOf_at (hd : m.distances.find? ref.id = some k) (hf : env[k]? = some f) :
    (ownerOf ref env).run m = (boundIn m.store f ref.token, m) := by
  have howner : m.store.ownerAt env k ref.name
      = if (m.store.frame f).binds ref.name then .ok f else .error .unbound := by
    simp [Store.ownerAt, Store.frameAt, hf]
  rw [run_ownerOf, hd, boundIn]
  dsimp only
  rw [howner, Reference.name]
  by_cases hb : (m.store.frame f).binds ref.token.lexeme
  · rw [if_pos hb, if_pos hb]
    rfl
  · rw [if_neg hb, if_neg hb]
    rfl

/-- A distance that leads past the frames is a fault. -/
theorem ownerOf_over (hd : m.distances.find? ref.id = some k) (hf : env[k]? = none) :
    (ownerOf ref env).run m = (.error (.fault (.overshoot k (env.length - 1))), m) := by
  rw [run_ownerOf, hd]
  simp only [Store.ownerAt, Store.frameAt, hf]
  rfl

theorem ownerOf_global (hd : m.distances.find? ref.id = none) :
    (ownerOf ref env).run m = (boundIn m.store Store.globalFrame ref.token, m) := by
  have howner : m.store.owner? Store.globals ref.name
      = if (m.store.frame Store.globalFrame).binds ref.name then some Store.globalFrame else none :=
    rfl
  rw [run_ownerOf, hd, boundIn]
  dsimp only
  rw [howner, Reference.name]
  by_cases hb : (m.store.frame Store.globalFrame).binds ref.token.lexeme
  · rw [if_pos hb, if_pos hb]
    rfl
  · rw [if_neg hb, if_neg hb]
    rfl

/-! ## 3. Meanings -/

/-- **A reference means a frame**, by a table of distances and in an environment. -/
structure Means (d : Distances) (ref : Reference) (env : Env) (f : FrameId) : Prop where
  read : ∀ m, m.distances = d → (lookUp ref env).run m = (readIn m.store f ref.token, m)
  write : ∀ m v, m.distances = d → (rebind ref env v).run m
    = if (m.store.frame f).binds ref.name then
        (.ok (), { m with store := m.store.defineIn f ref.name v })
      else (.error (.error (.undefinedVariable ref.name ref.token.pos)), m)

theorem rebind_run {v : Value} (h : (ownerOf ref env).run m = (boundIn m.store f ref.token, m)) :
    (rebind ref env v).run m = if (m.store.frame f).binds ref.name then
        (.ok (), { m with store := m.store.defineIn f ref.name v })
      else (.error (.error (.undefinedVariable ref.name ref.token.pos)), m) := by
  unfold boundIn at h
  unfold Reference.name
  by_cases hb : (m.store.frame f).binds ref.token.lexeme
  · rw [if_pos hb] at h ⊢
    exact run_bind_ok h
  · rw [if_neg hb] at h ⊢
    exact run_bind_error h

theorem means_at {d : Distances} (hd : d.find? ref.id = some k) (hf : env[k]? = some f) :
    Means d ref env f where
  read _ hm := (lookUp_at (hm ▸ hd)).trans (readAt_run hf)
  write _ _ hm := rebind_run (ownerOf_at (hm ▸ hd) hf)

theorem means_global {d : Distances} (hd : d.find? ref.id = none) :
    Means d ref env Store.globalFrame where
  read _ hm := lookUp_global (hm ▸ hd)
  write _ _ hm := rebind_run (ownerOf_global (hm ▸ hd))

end Lookups

end Lox
