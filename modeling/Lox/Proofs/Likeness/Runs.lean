import Lox.Proofs.Likeness.Machines
import Lox.Proofs.Machine.Safe

/-!
# Computations that are alike

* `RunsLike`: **two computations**. From machines that are alike they lead to machines that are alike,
  and come to outcomes that are alike. Frames may have been added.
* `RunsLike.bind`: one computation after another.
* Then one lemma for each part of the interpreter that runs no program itself.
-/

namespace Lox

variable {L : Likeness} {κs : List Renaming} {α β : Type}

/-! ## 1. Computations -/

/-- What two computations lead to from two machines. What `V` says about their results may depend on the
    frames there are then. -/
def RunsLikeAt (L : Likeness) (κs : List Renaming) (V : List Renaming → α → α → Prop)
    (x x' : Run α) (m m' : Machine) : Prop :=
  ∃ κs', κs <+: κs' ∧ MachineLike L κs' (x.run m).2 (x'.run m').2 ∧
    OutcomeLike L (V κs') (x.run m).1 (x'.run m').1

/-- **Two computations.** -/
def RunsLike (L : Likeness) (κs : List Renaming) (V : List Renaming → α → α → Prop)
    (x x' : Run α) : Prop :=
  ∀ m m', MachineLike L κs m m' → RunsLikeAt L κs V x x' m m'

/-- Nothing is said about two results. -/
def Any (_ : List Renaming) (_ _ : α) : Prop := True

namespace RunsLikeAt

variable {V : List Renaming → α → α → Prop} {W : List Renaming → β → β → Prop} {x x' : Run α}
  {m m' m₁ m₁' : Machine}

/-- Two computations whose outcomes are known, and that add no frame. -/
theorem of_run {r r' : Except Stop α} (hx : x.run m = (r, m₁)) (hx' : x'.run m' = (r', m₁'))
    (hm : MachineLike L κs m₁ m₁') (hr : OutcomeLike L (V κs) r r') :
    RunsLikeAt L κs V x x' m m' := by
  refine ⟨κs, List.prefix_refl κs, ?_, ?_⟩
  · rw [hx, hx']
    exact hm
  · rw [hx, hx']
    exact hr

theorem congr {y y' : Run α} {n n' : Machine} (h : RunsLikeAt L κs V y y' n n')
    (hx : x.run m = y.run n) (hx' : x'.run m' = y'.run n') : RunsLikeAt L κs V x x' m m' := by
  rw [RunsLikeAt, ← hx, ← hx'] at h
  exact h

theorem later {κs' : List Renaming} (h : RunsLikeAt L κs' V x x' m m') (hκ : κs <+: κs') :
    RunsLikeAt L κs V x x' m m' := by
  obtain ⟨κs₁, hκ₁, hrest⟩ := h
  exact ⟨κs₁, hκ.trans hκ₁, hrest⟩

/-- **One computation after another.** -/
theorem bind {f f' : α → Run β} (hx : RunsLikeAt L κs V x x' m m')
    (hf : ∀ κs' a a', κs <+: κs' → MachineLike L κs' (x.run m).2 (x'.run m').2 → V κs' a a' →
      RunsLikeAt L κs' W (f a) (f' a') (x.run m).2 (x'.run m').2) :
    RunsLikeAt L κs W (x >>= f) (x' >>= f') m m' := by
  obtain ⟨κs₁, hκ₁, hm₁, hr⟩ := hx
  cases hrun : x.run m with
  | mk r m₁ =>
    cases hrun' : x'.run m' with
    | mk r' m₁' =>
      rw [hrun, hrun'] at hm₁ hr hf
      cases hr with
      | ok hv =>
        exact ((hf κs₁ _ _ hκ₁ hm₁ hv).later hκ₁).congr (run_bind_ok hrun) (run_bind_ok hrun')
      | error he =>
        exact (of_run (run_bind_error hrun) (run_bind_error hrun') hm₁ (.error he)).later hκ₁

end RunsLikeAt

namespace RunsLike

variable {V : List Renaming → α → α → Prop} {W : List Renaming → β → β → Prop} {x x' : Run α}

theorem pure {a a' : α} (h : V κs a a') : RunsLike L κs V (Pure.pure a) (Pure.pure a') :=
  fun _ _ hm => .of_run rfl rfl hm (.ok h)

theorem raise {e e' : RuntimeError} (h : ErrorLike L e e') :
    RunsLike L κs V (raise e) (Lox.raise e') := fun _ _ hm => .of_run rfl rfl hm (.error (.error h))

theorem fault {f f' : Fault} : RunsLike L κs V (throw (.fault f)) (throw (.fault f')) :=
  fun _ _ hm => .of_run rfl rfl hm (.error .fault)

theorem starved : RunsLike L κs V outOfFuel outOfFuel :=
  fun _ _ hm => .of_run rfl rfl hm (.error .starved)

/-- **One computation after another.** -/
theorem bind {f f' : α → Run β} (hx : RunsLike L κs V x x')
    (hf : ∀ κs' a a', κs <+: κs' → V κs' a a' → RunsLike L κs' W (f a) (f' a')) :
    RunsLike L κs W (x >>= f) (x' >>= f') :=
  fun m m' hm => (hx m m' hm).bind fun κs' a a' hκ hm₁ hv => hf κs' a a' hκ hv _ _ hm₁

/-- A change of the store. -/
theorem modifyStore {g g' : Store → Store} (h : ∀ m m', MachineLike L κs m m' →
    MachineLike L κs { m with store := g m.store } { m' with store := g' m'.store }) :
    RunsLike L κs Any (modifyStore g) (Lox.modifyStore g') :=
  fun m m' hm => .of_run rfl rfl (h m m' hm) (.ok trivial)

end RunsLike

/-! ## 2. Variables -/

section Variables

variable {keys : List Renaming} {env : Env}

/-- Two tokens that name one variable of two frames, if these rename their variables by `r`. -/
structure NameLike (L : Likeness) (r : Renaming) (t t' : Token) : Prop where
  lexeme : t'.lexeme = r.new t.lexeme
  undefined : L.undefined t t'

theorem readIn_like {m m' : Machine} {f : FrameId} {r : Renaming} {t t' : Token}
    (hm : MachineLike L κs m m') (hf : κs[f]? = some r) (ht : NameLike L r t t') :
    OutcomeLike L (ValueLike L κs) (readIn m.store f t) (readIn m'.store f t') := by
  have hfind := (hm.frames f r hf).find? t.lexeme
  rw [← ht.lexeme] at hfind
  unfold readIn
  generalize (m.store.frame f).find? t.lexeme = v, (m'.store.frame f).find? t'.lexeme = v' at hfind ⊢
  cases hfind with
  | some hv => exact .ok hv
  | none => exact .error (.error (.undefinedVariable ht.undefined))

/-- A distance leads out of both environments, or to one frame. -/
theorem readAt_like (henv : EnvKeys κs env keys) {d : Nat} {t t' : Token}
    (ht : ∀ r, keys[d]? = some r → NameLike L r t t') :
    RunsLike L κs (ValueLike L) (readAt env d t) (readAt env d t') := by
  cases hf : env[d]? with
  | some f =>
    obtain ⟨r, hr, hκ⟩ := henv.at_some hf
    exact fun m m' hm =>
      .of_run (readAt_run hf) (readAt_run hf) hm (readIn_like hm hκ (ht r hr))
  | none =>
    have hover : ∀ (t : Token) (m : Machine),
        (readAt env d t).run m = (.error (.fault (.overshoot d (env.length - 1))), m) := by
      intro t m
      show (accessed t (m.store.getAt env d t.lexeme) : Run Value).run m = _
      simp only [Store.getAt, Store.frameAt, hf]
      rfl
    exact fun m m' hm => .of_run (hover t m) (hover t' m') hm (.error .fault)

/-- The instance at hand has one name everywhere. -/
theorem hiddenThis_like (r : Renaming) : NameLike L r hiddenThis hiddenThis :=
  ⟨r.this.symm, L.undefined_token ⟨rfl, rfl, L.pos_refl _⟩⟩

theorem nameLike_at {ref ref' : Reference} {o : Option Nat} (href : L.ref keys ref ref')
    (hname : ref'.name = spelled keys o ref.name) {d : Nat} (hd : o = some d) {r : Renaming}
    (hr : keys[d]? = some r) : NameLike L r ref.token ref'.token := by
  refine ⟨?_, L.ref_undefined href⟩
  rw [hd, spelled, Option.bind_some, hr] at hname
  exact hname

theorem nameLike_global {ref ref' : Reference} (href : L.ref keys ref ref')
    (hname : ref'.name = spelled keys none ref.name) : NameLike L .same ref.token ref'.token :=
  ⟨hname, L.ref_undefined href⟩

/-- **Like references mean like variables.** -/
theorem lookUp_like {ref ref' : Reference} (henv : EnvKeys κs env keys)
    (href : L.ref keys ref ref') :
    RunsLike L κs (ValueLike L) (lookUp ref env) (lookUp ref' env) := by
  intro m m' hm
  obtain ⟨hd', hname⟩ := hm.refs href
  cases hd : m.distances.find? ref.id with
  | some d =>
    rw [hd] at hd'
    exact (readAt_like henv (fun r hr => nameLike_at href hname hd hr) m m' hm).congr
      (lookUp_at hd) (lookUp_at hd')
  | none =>
    rw [hd] at hd' hname
    exact .of_run (lookUp_global hd) (lookUp_global hd') hm
      (readIn_like hm hm.global (nameLike_global href hname))

/-- Looking a reference up changes nothing. -/
theorem lookUp_snd (ref : Reference) (env : Env) (m : Machine) : ((lookUp ref env).run m).2 = m := by
  cases hd : m.distances.find? ref.id with
  | none => rw [lookUp_global hd]
  | some d =>
    rw [lookUp_at hd]
    cases hf : env[d]? with
    | some f => rw [readAt_run hf]
    | none =>
      show ((accessed ref.token (m.store.getAt env d ref.token.lexeme) : Run Value).run m).2 = m
      simp only [Store.getAt, Store.frameAt, hf]
      rfl

/-- Binding one variable anew in two frames. -/
theorem rebound_like {m m' : Machine} {f : FrameId} {r : Renaming} {t t' : Token}
    (hm : MachineLike L κs m m') (hf : κs[f]? = some r) (ht : NameLike L r t t') {v v' : Value}
    (hv : ValueLike L κs v v') {x x' : Run Unit}
    (hx : x.run m = if (m.store.frame f).binds t.lexeme then
        (.ok (), { m with store := m.store.defineIn f t.lexeme v })
      else (.error (.error (.undefinedVariable t.lexeme t.pos)), m))
    (hx' : x'.run m' = if (m'.store.frame f).binds t'.lexeme then
        (.ok (), { m' with store := m'.store.defineIn f t'.lexeme v' })
      else (.error (.error (.undefinedVariable t'.lexeme t'.pos)), m')) :
    RunsLikeAt L κs Any x x' m m' := by
  have hbinds := (hm.frames f r hf).binds t.lexeme
  rw [← ht.lexeme] at hbinds
  rw [hbinds] at hx'
  by_cases hb : (m.store.frame f).binds t.lexeme
  · rw [if_pos hb] at hx hx'
    rw [ht.lexeme] at hx'
    exact .of_run hx hx' (hm.defineIn hf t.lexeme hv) (.ok trivial)
  · rw [if_neg hb] at hx hx'
    exact .of_run hx hx' hm (.error (.error (.undefinedVariable ht.undefined)))

theorem rebind_like {ref ref' : Reference} (henv : EnvKeys κs env keys)
    (href : L.ref keys ref ref') {v v' : Value} (hv : ValueLike L κs v v') :
    RunsLike L κs Any (rebind ref env v) (rebind ref' env v') := by
  intro m m' hm
  obtain ⟨hd', hname⟩ := hm.refs href
  cases hd : m.distances.find? ref.id with
  | some d =>
    rw [hd] at hd'
    cases hf : env[d]? with
    | some f =>
      obtain ⟨r, hr, hκ⟩ := henv.at_some hf
      exact rebound_like hm hκ (nameLike_at href hname hd hr) hv (rebind_run (ownerOf_at hd hf))
        (rebind_run (ownerOf_at hd' hf))
    | none =>
      exact .of_run (run_bind_error (ownerOf_over hd hf)) (run_bind_error (ownerOf_over hd' hf)) hm
        (.error .fault)
  | none =>
    rw [hd] at hd' hname
    exact rebound_like hm hm.global (nameLike_global href hname) hv
      (rebind_run (ownerOf_global hd)) (rebind_run (ownerOf_global hd'))

/-- A declaration in the innermost frame. -/
theorem define_like (henv : EnvKeys κs env keys) {n : String} {v v' : Value}
    (hv : ValueLike L κs v v') :
    RunsLike L κs Any (modifyStore (·.define env n v))
      (modifyStore (·.define env ((innermost keys).new n) v')) := by
  refine .modifyStore fun m m' hm => ?_
  cases henv with
  | nil => exact hm
  | cons hf _ => exact hm.defineIn hf n hv

end Variables

end Lox
