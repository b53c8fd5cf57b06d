import Lox.Proofs.Session.Globals

/-!
# Environments as nested scopes

Frames hang on one another and are shared: an environment is a frame with all those behind it, so what is
written through one environment is seen through every other that has the frame, and through no other.

* `Act`, `Forest.run`: acts on the environments of a growing forest of frames.
* `Past`: what has been done to a forest: which frame each frame was hung on, and what was written.
* `Past.Follows p a r q`: **what an act answers and does, told from the past alone.** A name is looked up
  in the nearest frame that binds it, and there it is what was last written to it.
* `Forest.Shows`: a forest is as its past says. `act_shows`, `run_shows`: **it stays so**, act by act.
* `environments_are_nested_scopes`: all of it, from one frame without bindings on.
-/

namespace Lox

/-! ## 1. Acts -/

/-- Something done to an environment, which is named by its first frame. -/
inductive Act where
  /-- Makes a frame that hangs on none. -/
  | root
  /-- Hangs a new frame on the environment. -/
  | child (f : FrameId)
  | define (f : FrameId) (name : String) (v : Value)
  | get (f : FrameId) (name : String)
  | assign (f : FrameId) (name : String) (v : Value)
  | getAt (f : FrameId) (distance : Nat) (name : String)
  | assignAt (f : FrameId) (distance : Nat) (name : String) (v : Value)
  | names (f : FrameId)

/-- What comes of an act. -/
inductive Answer where
  /-- A new frame. -/
  | frame (f : FrameId)
  /-- Something was written. -/
  | done
  | value (v : Value)
  | names (ns : List String)
  | failed (e : AccessError)

/-- The frame that an act names is one of the first `count`. -/
def Act.On (count : Nat) : Act → Prop
  | .root => True
  | .child f | .define f _ _ | .get f _ | .assign f _ _ | .getAt f _ _ | .assignAt f _ _ _
  | .names f => f < count

/-- How many frames there are behind an act. -/
def Act.framesAfter (count : Nat) : Act → Nat
  | .root | .child _ => count + 1
  | _ => count

/-- Acts on frames that are there, if `count` of them are there at first. -/
def OnFrames : (count : Nat) → List Act → Prop
  | _, [] => True
  | count, a :: rest => a.On count ∧ OnFrames (a.framesAfter count) rest

theorem OnFrames.of_append {count : Nat} {acts more : List Act}
    (h : OnFrames count (acts ++ more)) :
    OnFrames count acts ∧ OnFrames (acts.foldl Act.framesAfter count) more := by
  induction acts generalizing count with
  | nil => exact ⟨trivial, h⟩
  | cons a rest ih =>
    obtain ⟨hfirst, hrest⟩ := ih h.2
    exact ⟨⟨h.1, hfirst⟩, hrest⟩

/-- A store, and the environment that starts with each of its frames. -/
structure Forest where
  store : Store
  envs : List Env

namespace Forest

/-- One frame, which binds nothing. -/
def start : Forest := ⟨.empty, [Store.globals]⟩

/-- The environment that starts with a frame. -/
def env (w : Forest) (f : FrameId) : Env := w.envs.getD f []

/-- A forest with one more frame, which hangs on another one or on none, and binds nothing. -/
def hang (w : Forest) (parent : Option FrameId) : Forest :=
  let (env, store) := w.store.child (parent.elim [] w.env) []
  ⟨store, w.envs ++ [env]⟩

/-- Does one act. -/
def act (w : Forest) : Act → Answer × Forest
  | .root => (.frame w.envs.length, w.hang none)
  | .child f => (.frame w.envs.length, w.hang (some f))
  | .define f name v => (.done, { w with store := w.store.define (w.env f) name v })
  | .get f name =>
    match w.store.get? (w.env f) name with
    | some v => (.value v, w)
    | none => (.failed .unbound, w)
  | .assign f name v =>
    match w.store.assign? (w.env f) name v with
    | some store => (.done, { w with store })
    | none => (.failed .unbound, w)
  | .getAt f distance name =>
    match w.store.getAt (w.env f) distance name with
    | .ok v => (.value v, w)
    | .error e => (.failed e, w)
  | .assignAt f distance name v =>
    match w.store.assignAt (w.env f) distance name v with
    | .ok store => (.done, { w with store })
    | .error e => (.failed e, w)
  | .names f => (.names (w.store.names (w.env f)), w)

/-- Does one act after another. -/
def run : Forest → List Act → List Answer × Forest
  | w, [] => ([], w)
  | w, a :: rest => ((w.act a).1 :: ((w.act a).2.run rest).1, ((w.act a).2.run rest).2)

end Forest

/-! ## 2. The past -/

/-- A name that was bound in a frame. -/
structure Write where
  frame : FrameId
  name : String
  value : Value

/-- What has been done to a forest. -/
structure Past where
  /-- The frame that each frame was hung on; none for the first, and for others that hang on none. -/
  parents : List (Option FrameId)
  /-- What was written, the latest first. -/
  writes : List Write

namespace Past

/-- One frame, and nothing written. -/
def start : Past := ⟨[none], []⟩

/-- One more frame. -/
def hang (p : Past) (parent : Option FrameId) : Past := { p with parents := p.parents ++ [parent] }

/-- One more write. -/
def write (p : Past) (f : FrameId) (name : String) (v : Value) : Past :=
  { p with writes := ⟨f, name, v⟩ :: p.writes }

/-- What was last written to a name in a frame; the frame binds the name if anything was. -/
def written? (p : Past) (f : FrameId) (name : String) : Option Value :=
  (p.writes.find? fun w => w.frame = f ∧ w.name = name).map Write.value

theorem written?_write (p : Past) (f g : FrameId) (name n : String) (v : Value) :
    (p.write g name v).written? f n = if g = f ∧ name = n then some v else p.written? f n := by
  rw [written?, write, List.find?_cons]
  by_cases h : g = f ∧ name = n
  · simp [h]
  · simp [h, written?]

/-- The frame that lies `d` links out of a frame. -/
inductive Out (p : Past) : (d : Nat) → FrameId → FrameId → Prop where
  | here {f} (h : f < p.parents.length) : Out p 0 f f
  | link {d f g r} (hf : p.parents[f]? = some (some g)) (h : Out p d g r) : Out p (d + 1) f r

theorem Out.lt {p : Past} {d : Nat} {f g : FrameId} (h : p.Out d f g) : g < p.parents.length := by
  induction h with
  | here h => exact h
  | link _ _ ih => exact ih

/-- **The nearest frame that binds a name**, from a frame outward: `g`, and it is `d` links out. -/
structure Nearest (p : Past) (f : FrameId) (name : String) (d : Nat) (g : FrameId) : Prop where
  out : p.Out d f g
  bound : (p.written? g name).isSome
  nearest : ∀ d' < d, ∀ g', p.Out d' f g' → p.written? g' name = none

/-- No frame binds a name, from a frame outward. -/
def Unbound (p : Past) (f : FrameId) (name : String) : Prop :=
  ∀ d g, p.Out d f g → p.written? g name = none

/-- **The names bound from a frame outward**: one part a frame, from the innermost on. A name stands in
    the part of the nearest frame that binds it, and each part is in the order of its bytes. -/
structure Lists (p : Past) (f : FrameId) (parts : List (List String)) : Prop where
  length : ∀ d, d < parts.length ↔ ∃ g, p.Out d f g
  mem : ∀ d part, parts[d]? = some part → ∀ name, name ∈ part ↔ ∃ g, p.Nearest f name d g
  sorted : ∀ part : List String, part ∈ parts → (part.map Text.Utf8.encode).Pairwise (· < ·)
  once : parts.flatten.Nodup

/-- **What an act answers, and what is past behind it.** All but the acts that write and those that hang
    up a frame leave everything as it was. -/
inductive Follows (p : Past) : Act → Answer → Past → Prop where
  | root : Follows p .root (.frame p.parents.length) (p.hang none)
  | child {f} : Follows p (.child f) (.frame p.parents.length) (p.hang (some f))
  | define {f name v} : Follows p (.define f name v) .done (p.write f name v)
  | get {f name d g v} (h : p.Nearest f name d g) (hv : p.written? g name = some v) :
      Follows p (.get f name) (.value v) p
  | getUnbound {f name} (h : p.Unbound f name) : Follows p (.get f name) (.failed .unbound) p
  | assign {f name v d g} (h : p.Nearest f name d g) :
      Follows p (.assign f name v) .done (p.write g name v)
  | assignUnbound {f name v} (h : p.Unbound f name) :
      Follows p (.assign f name v) (.failed .unbound) p
  | getAt {f d name g v} (h : p.Out d f g) (hv : p.written? g name = some v) :
      Follows p (.getAt f d name) (.value v) p
  | getAtUnbound {f d name g} (h : p.Out d f g) (hv : p.written? g name = none) :
      Follows p (.getAt f d name) (.failed .unbound) p
  | getAtOver {f d name hops r} (h : p.Out hops f r) (hr : p.parents[r]? = some none)
      (hd : hops < d) : Follows p (.getAt f d name) (.failed (.overshoot d hops)) p
  | assignAt {f d name v g} (h : p.Out d f g) (hv : (p.written? g name).isSome) :
      Follows p (.assignAt f d name v) .done (p.write g name v)
  | assignAtUnbound {f d name v g} (h : p.Out d f g) (hv : p.written? g name = none) :
      Follows p (.assignAt f d name v) (.failed .unbound) p
  | assignAtOver {f d name v hops r} (h : p.Out hops f r) (hr : p.parents[r]? = some none)
      (hd : hops < d) : Follows p (.assignAt f d name v) (.failed (.overshoot d hops)) p
  | names {f parts} (h : p.Lists f parts) : Follows p (.names f) (.names parts.flatten) p

/-- Acts one after another, with their answers. -/
inductive Goes : Past → List Act → List Answer → Past → Prop where
  | nil {p} : Goes p [] [] p
  | cons {p a r q acts answers p'} (h : p.Follows a r q) (hrest : Goes q acts answers p') :
      Goes p (a :: acts) (r :: answers) p'

end Past

/-- **A forest is as its past says.** -/
structure Forest.Shows (w : Forest) (p : Past) : Prop where
  size : w.store.frames.size = p.parents.length
  envs : w.envs.length = p.parents.length
  /-- The environment of a frame that hangs on none. -/
  root : ∀ f : FrameId, p.parents[f]? = some none → w.env f = [f]
  /-- The environment of a frame that hangs on another. -/
  behind : ∀ f g : FrameId, p.parents[f]? = some (some g) → w.env f = f :: w.env g
  /-- A frame hangs on an older one, so no chain comes back to a frame. -/
  older : ∀ f g : FrameId, p.parents[f]? = some (some g) → g < f
  bound : ∀ f name, (w.store.frame f).find? name = p.written? f name
  nodup : ∀ f, (w.store.frame f).names.Nodup

/-! ## 3. Chains of frames -/

section Chains

variable {s : Store} {env : Env} {name : String} {g : FrameId}

/-- No frame in front of the one at a distance binds a name. -/
def Store.FreeBefore (s : Store) (env : Env) (name : String) (d : Nat) : Prop :=
  ∀ d' < d, ∀ g, env[d']? = some g → (s.frame g).binds name = false

theorem Store.freeBefore_succ {f : FrameId} {outer : Env} {d : Nat} :
    s.FreeBefore (f :: outer) name (d + 1) ↔
      (s.frame f).binds name = false ∧ s.FreeBefore outer name d := by
  constructor
  · intro h
    exact ⟨h 0 (Nat.succ_pos d) f rfl, fun d' hd g hg => h (d' + 1) (Nat.succ_lt_succ hd) g hg⟩
  · rintro ⟨hf, houter⟩ d' hd g hg
    cases d' with
    | zero =>
      cases hg
      exact hf
    | succ d' => exact houter d' (Nat.lt_of_succ_lt_succ hd) g hg

/-- **The owner of a name** is the first frame of the chain that binds it. -/
theorem Store.owner?_eq_some_iff : s.owner? env name = some g ↔
    ∃ d, env[d]? = some g ∧ (s.frame g).binds name = true ∧ s.FreeBefore env name d := by
  induction env with
  | nil => simp [owner?]
  | cons f outer ih =>
    rw [owner?]
    by_cases hf : (s.frame f).binds name = true
    · rw [if_pos hf]
      constructor
      · intro h
        cases h
        exact ⟨0, rfl, hf, fun _ hd => absurd hd (Nat.not_lt_zero _)⟩
      · rintro ⟨d, hg, -, hfree⟩
        cases d with
        | zero => exact hg
        | succ d => rw [(freeBefore_succ.mp hfree).1] at hf; cases hf
    · rw [if_neg hf, ih]
      constructor
      · rintro ⟨d, hg, hb, hfree⟩
        exact ⟨d + 1, hg, hb, freeBefore_succ.mpr ⟨Bool.eq_false_iff.mpr hf, hfree⟩⟩
      · rintro ⟨d, hg, hb, hfree⟩
        cases d with
        | zero =>
          cases hg
          exact absurd hb hf
        | succ d => exact ⟨d, hg, hb, (freeBefore_succ.mp hfree).2⟩

theorem Store.owner?_eq_none_iff :
    s.owner? env name = none ↔ ∀ g ∈ env, (s.frame g).binds name = false := by
  induction env with
  | nil => simp [owner?]
  | cons f outer ih =>
    rw [owner?, List.forall_mem_cons, ← ih]
    cases (s.frame f).binds name <;> simp

/-- A name is read where its owner binds it. -/
theorem Store.get?_eq (s : Store) (env : Env) (name : String) :
    s.get? env name = (s.owner? env name).bind fun g => (s.frame g).find? name := by
  induction env with
  | nil => rfl
  | cons f outer ih =>
    rw [get?, owner?, Bindings.binds, ih]
    cases h : (s.frame f).find? name with
    | none => rfl
    | some v => simp [h]

/-- **The names of a chain**, one part a frame: those that the frame binds and none in front of it. -/
theorem Store.names_parts (hnodup : ∀ f, (s.frame f).names.Nodup) (env : Env) :
    ∃ parts : List (List String), s.names env = parts.flatten ∧ parts.length = env.length ∧
      (∀ part ∈ parts, (part.map Text.Utf8.encode).Pairwise (· < ·)) ∧
      (∀ d part g, parts[d]? = some part → env[d]? = some g → ∀ name,
        name ∈ part ↔ (s.frame g).binds name = true ∧ s.FreeBefore env name d) ∧
      parts.flatten.Nodup := by
  induction env with
  | nil => exact ⟨[], rfl, rfl, nofun, nofun, .nil⟩
  | cons f outer ih =>
    obtain ⟨parts, hnames, hlength, hsorted, hmem, honce⟩ := ih
    let own := Text.sorted (s.frame f).names
    let others := fun name : String => !own.contains name
    have hown : ∀ name, name ∈ own ↔ (s.frame f).binds name = true := fun name =>
      (Text.sorted_perm _).mem_iff.trans (Bindings.mem_names_iff _ _)
    have hothers : ∀ name, others name = true ↔ (s.frame f).binds name = false := fun name => by
      rw [Bool.not_eq_true', List.contains_eq_mem, decide_eq_false_iff_not, hown,
        Bool.not_eq_true]
    refine ⟨own :: parts.map (List.filter others), ?_, ?_, ?_, ?_, ?_⟩
    · rw [names, hnames, List.flatten_cons, ← List.filter_flatten]
    · rw [List.length_cons, List.length_map, hlength, List.length_cons]
    · rw [List.forall_mem_cons, List.forall_mem_map]
      refine ⟨encode_sorted (hnodup f), fun part hpart => ?_⟩
      exact (hsorted part hpart).sublist (List.filter_sublist.map _)
    · intro d part g hpart hg name
      cases d with
      | zero =>
        cases hpart
        cases hg
        rw [hown]
        exact ⟨fun hb => ⟨hb, fun _ hd => absurd hd (Nat.not_lt_zero _)⟩, And.left⟩
      | succ d =>
        rw [List.getElem?_cons_succ, List.getElem?_map] at hpart
        obtain ⟨q, hq, rfl⟩ := Option.map_eq_some_iff.mp hpart
        rw [List.mem_filter, hmem d q g hq hg, hothers, freeBefore_succ, and_assoc,
          and_comm (a := s.FreeBefore outer name d)]
    · rw [List.flatten_cons, ← List.filter_flatten]
      refine List.nodup_append.mpr ⟨(Text.sorted_perm _).nodup_iff.mpr (hnodup f),
        honce.filter _, fun a ha b hb heq => ?_⟩
      have hfree := (hothers b).mp (List.mem_filter.mp hb).2
      rw [heq, hown, hfree] at ha
      cases ha

end Chains

/-! ## 4. What acts come to -/

namespace Forest

variable {w : Forest} {f g : FrameId} {name : String} {d : Nat}

theorem act_get (w : Forest) (f : FrameId) (name : String) : w.act (.get f name) =
    (match (w.store.owner? (w.env f) name).bind fun g => (w.store.frame g).find? name with
      | some v => .value v
      | none => .failed .unbound, w) := by
  rw [← Store.get?_eq]
  dsimp only [act]
  cases w.store.get? (w.env f) name <;> rfl

theorem act_assign (w : Forest) (f : FrameId) (name : String) (v : Value) :
    w.act (.assign f name v) = match w.store.owner? (w.env f) name with
      | some g => (.done, { w with store := w.store.defineIn g name v })
      | none => (.failed .unbound, w) := by
  dsimp only [act, Store.assign?]
  cases w.store.owner? (w.env f) name <;> rfl

theorem act_getAt (name : String) (hg : (w.env f)[d]? = some g) : w.act (.getAt f d name) =
    (match (w.store.frame g).find? name with
      | some v => .value v
      | none => .failed .unbound, w) := by
  simp only [act, Store.getAt, Store.frameAt, hg]
  cases (w.store.frame g).find? name <;> rfl

theorem act_getAt_over (name : String) (hd : (w.env f)[d]? = none) :
    w.act (.getAt f d name) = (.failed (.overshoot d ((w.env f).length - 1)), w) := by
  simp only [act, Store.getAt, Store.frameAt, hd]

theorem act_assignAt (name : String) (v : Value) (hg : (w.env f)[d]? = some g) :
    w.act (.assignAt f d name v) = if (w.store.frame g).binds name then
      (.done, { w with store := w.store.defineIn g name v }) else (.failed .unbound, w) := by
  simp only [act, Store.assignAt, Store.ownerAt, Store.frameAt, hg]
  cases (w.store.frame g).binds name <;> rfl

theorem act_assignAt_over (name : String) (v : Value) (hd : (w.env f)[d]? = none) :
    w.act (.assignAt f d name v) = (.failed (.overshoot d ((w.env f).length - 1)), w) := by
  simp only [act, Store.assignAt, Store.ownerAt, Store.frameAt, hd]
  rfl

end Forest

/-! ## 5. Forests and their past -/

/-- The frame that a frame hangs on, old or new. -/
theorem getElem?_hung {parents : List (Option FrameId)} {parent x : Option FrameId} {r : FrameId}
    (h : (parents ++ [parent])[r]? = some x) :
    (r < parents.length ∧ parents[r]? = some x) ∨ (r = parents.length ∧ x = parent) := by
  rw [List.getElem?_append] at h
  split at h
  · next hlt => exact .inl ⟨hlt, h⟩
  · next hge =>
    rw [List.getElem?_singleton] at h
    split at h
    · next hr =>
      exact .inr ⟨Nat.le_antisymm (Nat.sub_eq_zero_iff_le.mp hr) (Nat.le_of_not_lt hge),
        (Option.some.inj h).symm⟩
    · cases h

namespace Forest.Shows

variable {w : Forest} {p : Past} {f g : FrameId} {name : String} {d : Nat} {v : Value}

/-- Whether a frame hangs on another or not, it is the first of its environment. -/
theorem env_cons (h : w.Shows p) (hf : f < p.parents.length) :
    (p.parents[f]? = some none ∧ w.env f = [f]) ∨
      ∃ g, p.parents[f]? = some (some g) ∧ w.env f = f :: w.env g := by
  have hget : p.parents[f]? = some p.parents[f] := List.getElem?_eq_getElem hf
  cases hparent : p.parents[f] with
  | none =>
    rw [hparent] at hget
    exact .inl ⟨hget, h.root f hget⟩
  | some g =>
    rw [hparent] at hget
    exact .inr ⟨g, hget, h.behind f g hget⟩

theorem parent_lt (h : w.Shows p) (hf : p.parents[f]? = some (some g)) : g < p.parents.length :=
  Nat.lt_trans (h.older f g hf) (List.getElem?_eq_some_iff.mp hf).1

/-- **The frame at a distance in an environment** is the one as many links out. -/
theorem env_at (h : w.Shows p) (hf : f < p.parents.length) :
    (w.env f)[d]? = some g ↔ p.Out d f g := by
  induction d generalizing f with
  | zero =>
    have hfirst : (w.env f)[0]? = some f := by
      rcases h.env_cons hf with ⟨-, henv⟩ | ⟨_, -, henv⟩ <;> rw [henv] <;> rfl
    rw [hfirst]
    constructor
    · intro hg
      cases hg
      exact .here hf
    · rintro ⟨⟩
      rfl
  | succ d ih =>
    rcases h.env_cons hf with ⟨hroot, henv⟩ | ⟨parent, hparent, henv⟩
    · rw [henv]
      refine ⟨fun hg => (nomatch hg), fun hout => ?_⟩
      cases hout with
      | link hlink =>
        rw [hroot] at hlink
        cases hlink
    · rw [henv]
      refine (ih (h.parent_lt hparent)).trans ⟨fun hout => .link hparent hout, fun hout => ?_⟩
      cases hout with
      | link hlink hout =>
        rw [hparent] at hlink
        cases hlink
        exact hout

theorem binds_eq (h : w.Shows p) (f : FrameId) (name : String) :
    (w.store.frame f).binds name = (p.written? f name).isSome := by
  rw [Bindings.binds, h.bound]

theorem free_iff (h : w.Shows p) :
    (w.store.frame f).binds name = false ↔ p.written? f name = none := by
  rw [h.binds_eq, Option.isSome_eq_false_iff, Option.isNone_iff_eq_none]

theorem freeBefore_iff (h : w.Shows p) (hf : f < p.parents.length) :
    w.store.FreeBefore (w.env f) name d ↔
      ∀ d' < d, ∀ g, p.Out d' f g → p.written? g name = none := by
  simp only [Store.FreeBefore, h.env_at hf, h.free_iff]

/-- The first frame of the chain that binds a name is the nearest. -/
theorem nearest_iff (h : w.Shows p) (hf : f < p.parents.length) :
    p.Nearest f name d g ↔ (w.env f)[d]? = some g ∧ (w.store.frame g).binds name = true ∧
      w.store.FreeBefore (w.env f) name d := by
  rw [h.env_at hf, h.binds_eq, h.freeBefore_iff hf]
  exact ⟨fun hn => ⟨hn.out, hn.bound, hn.nearest⟩, fun hn => ⟨hn.1, hn.2.1, hn.2.2⟩⟩

theorem owner?_iff (h : w.Shows p) (hf : f < p.parents.length) :
    w.store.owner? (w.env f) name = some g ↔ ∃ d, p.Nearest f name d g := by
  simp only [Store.owner?_eq_some_iff, h.nearest_iff hf]

theorem unbound_of_owner? (h : w.Shows p) (hf : f < p.parents.length)
    (hnone : w.store.owner? (w.env f) name = none) : p.Unbound f name := fun _ g hout =>
  h.free_iff.mp (Store.owner?_eq_none_iff.mp hnone g (List.mem_of_getElem? ((h.env_at hf).mpr hout)))

/-- **An environment is left behind its last frame**, which hangs on none. -/
theorem overshoots (h : w.Shows p) (hf : f < p.parents.length) (hd : (w.env f)[d]? = none) :
    ∃ r, p.Out ((w.env f).length - 1) f r ∧ p.parents[r]? = some none ∧
      (w.env f).length - 1 < d := by
  have hne : w.env f ≠ [] := by
    rcases h.env_cons hf with ⟨-, henv⟩ | ⟨_, -, henv⟩ <;> rw [henv] <;> exact List.cons_ne_nil _ _
  have hpos := List.length_pos_iff.mpr hne
  have hd' := List.getElem?_eq_none_iff.mp hd
  have hlast : ∀ (n : Nat) (f : FrameId), f < p.parents.length → (w.env f).length = n + 1 →
      ∃ r, p.Out n f r ∧ p.parents[r]? = some none := by
    intro n
    induction n with
    | zero =>
      intro f hf hlength
      rcases h.env_cons hf with ⟨hroot, -⟩ | ⟨g, hparent, henv⟩
      · exact ⟨f, .here hf, hroot⟩
      · have hfirst : (w.env g)[0]? = some g := (h.env_at (h.parent_lt hparent)).mpr
          (.here (h.parent_lt hparent))
        rw [henv, List.length_cons, Nat.add_right_cancel_iff, List.length_eq_zero_iff] at hlength
        rw [hlength] at hfirst
        cases hfirst
    | succ n ih =>
      intro f hf hlength
      rcases h.env_cons hf with ⟨-, henv⟩ | ⟨g, hparent, henv⟩
      · rw [henv] at hlength
        cases hlength
      · rw [henv, List.length_cons, Nat.add_right_cancel_iff] at hlength
        obtain ⟨r, hout, hr⟩ := ih g (h.parent_lt hparent) hlength
        exact ⟨r, .link hparent hout, hr⟩
  obtain ⟨r, hout, hr⟩ := hlast ((w.env f).length - 1) f hf (by omega)
  exact ⟨r, hout, hr, by omega⟩

/-- **Binding a name in a frame** is one more write. -/
theorem write (h : w.Shows p) (hg : g < p.parents.length) (name : String) (v : Value) :
    Shows { w with store := w.store.defineIn g name v } (p.write g name v) where
  size := (w.store.size_defineIn g name v).trans h.size
  envs := h.envs
  root := h.root
  behind := h.behind
  older := h.older
  bound f n := by
    show ((w.store.defineIn g name v).frame f).find? n = _
    rw [Store.frame_defineIn, Past.written?_write, ← h.bound]
    by_cases hf : g = f
    · subst hf
      rw [if_pos ⟨rfl, h.size ▸ hg⟩, Bindings.find?_put]
      simp only [true_and]
    · rw [if_neg fun hc => hf hc.1, if_neg fun hc => hf hc.1]
  nodup f := by
    show ((w.store.defineIn g name v).frame f).names.Nodup
    rw [Store.frame_defineIn]
    split
    · exact Bindings.nodup_put name v (h.nodup f)
    · exact h.nodup f

theorem env_old (h : w.Shows p) (parent : Option FrameId) {r : FrameId}
    (hr : r < p.parents.length) : (w.hang parent).env r = w.env r := by
  show (w.envs ++ [_]).getD r [] = w.envs.getD r []
  rw [List.getD_eq_getElem?_getD, List.getD_eq_getElem?_getD,
    List.getElem?_append_left (h.envs ▸ hr)]

theorem env_new (h : w.Shows p) (parent : Option FrameId) :
    (w.hang parent).env p.parents.length = p.parents.length :: parent.elim [] w.env := by
  show (w.envs ++ [w.store.frames.size :: _]).getD p.parents.length [] = _
  rw [List.getD_eq_getElem?_getD, ← h.envs, List.getElem?_concat_length, h.size, h.envs]
  rfl

/-- **A frame hung on an environment, or on none**, binds nothing, and all others stay. -/
theorem hang (h : w.Shows p) {parent : Option FrameId}
    (hparent : ∀ f, parent = some f → f < p.parents.length) : (w.hang parent).Shows (p.hang parent) where
  size := by
    show (w.store.frames.push []).size = (p.parents ++ [parent]).length
    rw [Array.size_push, h.size, List.length_append]
    rfl
  envs := by
    show (w.envs ++ [_]).length = (p.parents ++ [parent]).length
    rw [List.length_append, h.envs, List.length_append]
    rfl
  root r hr := by
    rcases getElem?_hung hr with ⟨hlt, hold⟩ | ⟨rfl, rfl⟩
    · rw [h.env_old parent hlt, h.root r hold]
    · exact h.env_new none
  behind r g hr := by
    rcases getElem?_hung hr with ⟨hlt, hold⟩ | ⟨rfl, rfl⟩
    · rw [h.env_old parent hlt, h.env_old parent (h.parent_lt hold), h.behind r g hold]
    · rw [h.env_old _ (hparent g rfl), h.env_new]
      rfl
  older r g hr := by
    rcases getElem?_hung hr with ⟨-, hold⟩ | ⟨rfl, rfl⟩
    · exact h.older r g hold
    · exact hparent g rfl
  bound r name := by
    show (Store.frame { w.store with frames := w.store.frames.push [] } r).find? name = _
    rw [Store.frame_push]
    split
    · next hr =>
      -- nothing was written to a frame that was not there
      have hnone : w.store.frame r = [] := by
        rw [Store.frame, hr, Array.getElem?_eq_none (Nat.le_refl _)]
        rfl
      exact hnone ▸ h.bound r name
    · exact h.bound r name
  nodup r := by
    show (Store.frame { w.store with frames := w.store.frames.push [] } r).names.Nodup
    rw [Store.frame_push]
    split
    · exact .nil
    · exact h.nodup r

theorem define_first (h : w.Shows p) (hf : f < p.parents.length) (name : String) (v : Value) :
    w.store.define (w.env f) name v = w.store.defineIn f name v := by
  rcases h.env_cons hf with ⟨-, henv⟩ | ⟨_, -, henv⟩ <;> rw [henv] <;> rfl

/-- The names of an environment, part by part. -/
theorem lists (h : w.Shows p) (hf : f < p.parents.length) :
    ∃ parts, w.store.names (w.env f) = parts.flatten ∧ p.Lists f parts := by
  obtain ⟨parts, hnames, hlength, hsorted, hmem, honce⟩ := Store.names_parts h.nodup (w.env f)
  refine ⟨parts, hnames, fun d => ?_, fun d part hpart name => ?_, hsorted, honce⟩
  · rw [hlength]
    simp only [← h.env_at hf, List.getElem?_eq_some_iff]
    exact ⟨fun hd => ⟨_, hd, rfl⟩, fun ⟨_, hd, _⟩ => hd⟩
  · have hd : d < (w.env f).length := hlength ▸ (List.getElem?_eq_some_iff.mp hpart).1
    have hg := List.getElem?_eq_getElem hd
    rw [hmem d part _ hpart hg name]
    constructor
    · exact fun hb => ⟨_, (h.nearest_iff hf).mpr ⟨hg, hb⟩⟩
    · rintro ⟨g, hnearest⟩
      obtain ⟨hg', hb⟩ := (h.nearest_iff hf).mp hnearest
      rw [hg] at hg'
      cases hg'
      exact hb

end Forest.Shows

/-- **One act** answers and does what follows from the past, and the forest still shows it. -/
theorem Forest.act_shows {w : Forest} {p : Past} {a : Act} (h : w.Shows p)
    (ha : a.On p.parents.length) :
    ∃ q, p.Follows a (w.act a).1 q ∧ (w.act a).2.Shows q ∧
      q.parents.length = a.framesAfter p.parents.length ∧ p.parents <+: q.parents := by
  -- an act that leaves the forest as it was
  have hsame {a : Act} {r : Answer} (hact : w.act a = (r, w)) (hfollows : p.Follows a r p)
      (hcount : a.framesAfter p.parents.length = p.parents.length) :
      ∃ q, p.Follows a (w.act a).1 q ∧ (w.act a).2.Shows q ∧
        q.parents.length = a.framesAfter p.parents.length ∧ p.parents <+: q.parents := by
    rw [hact]
    exact ⟨p, hfollows, h, hcount.symm, List.prefix_refl _⟩
  -- an act that writes to a frame
  have hwrites {a : Act} {g : FrameId} {name : String} {v : Value}
      (hact : w.act a = (.done, { w with store := w.store.defineIn g name v }))
      (hg : g < p.parents.length) (hfollows : p.Follows a .done (p.write g name v))
      (hcount : a.framesAfter p.parents.length = p.parents.length) :
      ∃ q, p.Follows a (w.act a).1 q ∧ (w.act a).2.Shows q ∧
        q.parents.length = a.framesAfter p.parents.length ∧ p.parents <+: q.parents := by
    rw [hact]
    exact ⟨_, hfollows, h.write hg name v, hcount.symm, List.prefix_refl _⟩
  cases a with
  | root =>
    refine ⟨_, ?_, h.hang (nofun : ∀ f, none = some f → _), List.length_append, List.prefix_append _ _⟩
    show p.Follows .root (.frame w.envs.length) _
    rw [h.envs]
    exact .root
  | child f =>
    have hparent : ∀ g, some f = some g → g < p.parents.length := fun g hg => Option.some.inj hg ▸ ha
    refine ⟨_, ?_, h.hang hparent, List.length_append, List.prefix_append _ _⟩
    show p.Follows (.child f) (.frame w.envs.length) _
    rw [h.envs]
    exact .child
  | define f name v =>
    refine hwrites ?_ ha .define rfl
    rw [← h.define_first ha name v]
    rfl
  | get f name =>
    have hact := w.act_get f name
    cases howner : w.store.owner? (w.env f) name with
    | none =>
      rw [howner] at hact
      exact hsame hact (.getUnbound (h.unbound_of_owner? ha howner)) rfl
    | some g =>
      obtain ⟨d, hnearest⟩ := (h.owner?_iff ha).mp howner
      obtain ⟨v, hv⟩ := Option.isSome_iff_exists.mp hnearest.bound
      rw [howner, Option.bind_some, h.bound, hv] at hact
      exact hsame hact (.get hnearest hv) rfl
  | assign f name v =>
    have hact := w.act_assign f name v
    cases howner : w.store.owner? (w.env f) name with
    | none =>
      rw [howner] at hact
      exact hsame hact (.assignUnbound (h.unbound_of_owner? ha howner)) rfl
    | some g =>
      obtain ⟨d, hnearest⟩ := (h.owner?_iff ha).mp howner
      rw [howner] at hact
      exact hwrites hact (hnearest.out.lt) (.assign hnearest) rfl
  | getAt f d name =>
    cases hg : (w.env f)[d]? with
    | none =>
      obtain ⟨r, hout, hr, hd⟩ := h.overshoots ha hg
      exact hsame (act_getAt_over name hg) (.getAtOver hout hr hd) rfl
    | some g =>
      have hout := (h.env_at ha).mp hg
      have hact := act_getAt name hg
      cases hv : p.written? g name with
      | none =>
        rw [h.bound, hv] at hact
        exact hsame hact (.getAtUnbound hout hv) rfl
      | some v =>
        rw [h.bound, hv] at hact
        exact hsame hact (.getAt hout hv) rfl
  | assignAt f d name v =>
    cases hg : (w.env f)[d]? with
    | none =>
      obtain ⟨r, hout, hr, hd⟩ := h.overshoots ha hg
      exact hsame (act_assignAt_over name v hg) (.assignAtOver hout hr hd) rfl
    | some g =>
      have hout := (h.env_at ha).mp hg
      have hact := act_assignAt name v hg
      rw [h.binds_eq] at hact
      cases hv : p.written? g name with
      | none =>
        rw [hv] at hact
        exact hsame hact (.assignAtUnbound hout hv) rfl
      | some u =>
        rw [hv] at hact
        exact hwrites hact (hout.lt) (.assignAt hout (hv ▸ rfl)) rfl
  | names f =>
    obtain ⟨parts, hnames, hlists⟩ := h.lists ha
    exact hsame (congrArg (fun ns => (Answer.names ns, w)) hnames) (.names hlists) rfl

/-- **Acts one after another** answer and do what follows from the past. -/
theorem Forest.run_shows {w : Forest} {p : Past} {acts : List Act} (h : w.Shows p)
    (hacts : OnFrames p.parents.length acts) :
    ∃ q, p.Goes acts (w.run acts).1 q ∧ (w.run acts).2.Shows q ∧
      q.parents.length = acts.foldl Act.framesAfter p.parents.length ∧ p.parents <+: q.parents := by
  induction acts generalizing w p with
  | nil => exact ⟨p, .nil, h, rfl, List.prefix_refl _⟩
  | cons a rest ih =>
    obtain ⟨q, hfirst, hshows, hcount, hparents⟩ := act_shows h hacts.1
    obtain ⟨q', hrest, hshows', hcount', hparents'⟩ := ih hshows (hcount ▸ hacts.2)
    refine ⟨q', .cons hfirst hrest, hshows', ?_, hparents.trans hparents'⟩
    rw [hcount', hcount, List.foldl_cons]

theorem Forest.start_shows : start.Shows .start where
  size := rfl
  envs := rfl
  root f hf := by
    cases f with
    | zero => rfl
    | succ f => cases hf
  behind f g hf := by cases f <;> cases hf
  older f g hf := by cases f <;> cases hf
  bound f name := by cases f <;> rfl
  nodup f := by cases f <;> exact .nil

/-- **The two ways to look a name up agree** where the distance is that of the nearest frame that binds
    it. -/
theorem Forest.Shows.act_at {w : Forest} {p : Past} {f g : FrameId} {name : String} {d : Nat}
    (h : w.Shows p) (hnearest : p.Nearest f name d g) :
    w.act (.getAt f d name) = w.act (.get f name) ∧
      ∀ v, w.act (.assignAt f d name v) = w.act (.assign f name v) := by
  have hf : f < p.parents.length := by
    cases hnearest.out with
    | here hf => exact hf
    | link hf _ => exact (List.getElem?_eq_some_iff.mp hf).1
  obtain ⟨hg, hbinds, -⟩ := (h.nearest_iff hf).mp hnearest
  have howner := (h.owner?_iff hf).mpr ⟨d, hnearest⟩
  refine ⟨?_, fun v => ?_⟩
  · rw [act_getAt name hg, act_get, howner]
    rfl
  · rw [act_assignAt name v hg, act_assign, howner, if_pos hbinds]

/-- **Environments are nested scopes over a shared forest of frames.** Whatever is done to the
    environments of a forest, each act answers and does what follows from the past, and the frames and
    their links are as the past says: a link never changes, and leads to an older frame. Looking a name
    up at the distance of the nearest frame that binds it is looking it up from there outward. -/
theorem environments_are_nested_scopes (acts more : List Act) (h : OnFrames 1 (acts ++ more)) :
    let w := (Forest.start.run acts).2
    ∃ p q, Past.start.Goes acts (Forest.start.run acts).1 p ∧ w.Shows p ∧
      p.Goes more (w.run more).1 q ∧ (w.run more).2.Shows q ∧ p.parents <+: q.parents ∧
      ∀ f name d g, p.Nearest f name d g →
        w.act (.getAt f d name) = w.act (.get f name) ∧
        ∀ v, w.act (.assignAt f d name v) = w.act (.assign f name v) := by
  obtain ⟨hacts, hmore⟩ := h.of_append
  obtain ⟨p, hgoes, hshows, hcount, -⟩ := Forest.run_shows Forest.start_shows hacts
  obtain ⟨q, hgoes', hshows', -, hparents⟩ := Forest.run_shows hshows (hcount ▸ hmore)
  exact ⟨p, q, hgoes, hshows, hgoes', hshows', hparents, fun _ _ _ _ => hshows.act_at⟩

/-- A name that an inner frame shadows. A frame that hangs on none does not see it. -/
theorem environments_are_nested_scopes_shadowed :
    let acts : List Act := [.define 0 "a" .nil, .child 0, .child 1, .define 1 "a" (.bool true)]
    let more : List Act :=
      [.assign 2 "a" (.bool false), .getAt 2 1 "a", .get 0 "a", .names 2, .root, .get 3 "a"]
    OnFrames 1 (acts ++ more) ∧ ∃ p q, Past.start.Goes acts [.done, .frame 1, .frame 2, .done] p ∧
      p.Goes more [.done, .value (.bool false), .value .nil, .names ["a"], .frame 3,
        .failed .unbound] q ∧
      p.parents <+: q.parents := by
  intro acts more
  have h : OnFrames 1 (acts ++ more) := by simp [acts, more, OnFrames, Act.On, Act.framesAfter]
  obtain ⟨p, q, hgoes, -, hgoes', -, hparents, -⟩ := environments_are_nested_scopes acts more h
  have hanswers : ((Forest.start.run acts).2.run more).1
      = [.done, .value (.bool false), .value .nil, .names ["a"], .frame 3, .failed .unbound] := by cbv
  rw [hanswers] at hgoes'
  exact ⟨h, p, q, hgoes, hgoes', hparents⟩

end Lox
