import Lox.Proofs.Machine.Composition
import Lox.Proofs.Machine.Steps
import Lox.Session

/-!
# What a session visits

* `Session.after`: a session after some entries, each a program, a line of a prompt, or something that
  happens outside.
* `Accepted`: the programs that the front end let through in it.
* `Visited`: **every call that is made in a session**: the calls that a step starts with, one a
  statement, and the calls that these make.
* `Sound`: all that the session holds fits the programs so far, and the next references are not in the
  table yet. `accept_sound` says that reading and resolving a source keeps it so.
-/

namespace Lox

/-! ## 1. Sessions -/

/-- What happens to a session. -/
inductive Entry where
  /-- A whole program is run. -/
  | file (source : String)
  /-- A prompt was given a line. -/
  | line (source : String)
  /-- Something happens outside: output is fetched, input arrives, time passes. -/
  | outside (sink : Sink) (input : Input) (now : Instant) (clock : Clock)

/-- The source of an entry. -/
def Entry.source? : Entry → Option String
  | .file source | .line source => some source
  | .outside _ _ _ _ => none

/-- A step of a session. -/
def Session.feed (fuel : Nat) (s : Session) : Entry → Step
  | .file source => s.runFile fuel source
  | .line source => s.runLine fuel source
  | .outside sink input now clock => ⟨{ s with machine := { s.machine with sink, input, now, clock } }, none⟩

/-- A session after some entries. -/
def Session.after (fuel : Nat) (s : Session) (entries : List Entry) : Session :=
  entries.foldl (fun s e => (s.feed fuel e).session) s

/-- A program that the front end let through. -/
def Accepted (fuel : Nat) (s : Session) (entries : List Entry) (program : List Stmt) : Prop :=
  ∃ before entry later source s', entries = before ++ entry :: later ∧
    entry.source? = some source ∧ (s.after fuel before).accept source = (s', some program)

/-- The call for a statement at the top of a line. -/
def Call.ofTop : Stmt → Call
  | .expr e => .evaluate e Store.globals
  | s => .execute s Store.globals

/-- What a statement at the top does is what the call for it does. -/
theorem perform_snd (fuel : Nat) (statement : Stmt) (m : Machine) :
    ((perform fuel statement).run m).2 = machineAfter fuel m (.ofTop statement) := by
  cases statement <;> exact run_map_snd _ _ m

/-- The calls that a step starts with, one a statement. -/
inductive Begins (fuel : Nat) (s : Session) : Entry → Call → Machine → Prop where
  | file {source s' before statement rest m}
      (h : s.accept source = (s', some (before ++ statement :: rest)))
      (hrun : (runAll fuel before).run s'.machine = (.ok (), m)) :
      Begins fuel s (.file source) (.execute statement Store.globals) m
  | line {source s' before statement rest}
      (h : s.accept source = (s', some (before ++ statement :: rest)))
      (hrun : (s'.runStatements fuel before).halt = none) :
      Begins fuel s (.line source) (.ofTop statement) (s'.runStatements fuel before).session.machine

/-- **Every call that is made in a session.** -/
inductive Visited (fuel : Nat) (s : Session) (entries : List Entry) : History where
  | begins {before entry later c m} (h : entries = before ++ entry :: later)
      (hb : Begins fuel (s.after fuel before) entry c m) : Visited fuel s entries ⟨fuel, c, m⟩
  | makes {n c m c' m'} (h : Visited fuel s entries ⟨n + 1, c, m⟩) (hm : Makes n c m c' m') :
      Visited fuel s entries ⟨n, c', m'⟩

theorem Begins.visited {fuel : Nat} {s : Session} {entry : Entry} {c : Call} {m : Machine}
    (h : Begins fuel s entry c m) : Visited fuel s [entry] ⟨fuel, c, m⟩ :=
  .begins (show [entry] = [] ++ entry :: [] from rfl) h

/-- The calls and the programs of a session. -/
def worldOf (fuel : Nat) (s : Session) (entries : List Entry) : World :=
  ⟨Visited fuel s entries, Accepted fuel s entries⟩

theorem worldOf_closed (fuel : Nat) (s : Session) (entries : List Entry) :
    (worldOf fuel s entries).calls.Closed := fun _ _ _ _ _ h hm => .makes h hm

/-! ## 2. Reading and resolving -/

/-- **All that a session holds fits**, and the next references are new. -/
structure Sound (w : World) (s : Session) : Prop where
  good : Good w s.nextId s.machine
  fresh : ∀ id : RefId, s.nextId ≤ id.index → s.machine.distances.find? id = none

theorem Good.later {w : World} {k k' : Nat} {m m' : Machine} (h : Good w k m)
    (hl : Later k k' m m') (hs : m'.store = m.store) : Good w k' m' where
  frames f name v hv := (h.frames f name v (hs ▸ hv)).later hl
  fields o name v hv := (h.fields o name v (hs ▸ hv)).later hl

theorem start_sound (w : World) (sink : Sink) (input : Input) (now : Instant) (clock : Clock) :
    Sound w (.start sink input now clock) := by
  have hnative : ∀ f name v, ((Machine.initial sink input now clock).store.frame f).find? name = some v →
      ∃ g, v = .native g := by
    intro f name v hv
    cases f with
    | zero =>
      have hpairs : ∀ (fs : List Native) (b : Bindings Value), b = fs.map (fun f => (f.name, .native f)) →
          b.find? name = some v → ∃ g, v = .native g := by
        intro fs
        induction fs with
        | nil =>
          rintro b rfl hb
          cases hb
        | cons g rest ih =>
          rintro b rfl hb
          rw [List.map_cons, Bindings.find?] at hb
          split at hb
          · cases hb
            exact ⟨g, rfl⟩
          · exact ih _ rfl hb
      exact hpairs Native.all _ rfl hv
    | succ f => cases hv
  refine ⟨⟨fun f name v hv => ?_, fun o name v hv => ?_⟩, fun id _ => rfl⟩
  · obtain ⟨g, rfl⟩ := hnative f name v hv
    trivial
  · cases hv

section Accept

variable {w : World} {s : Session}

/-- A program that is let through was parsed without a complaint. -/
theorem parsed_of_accept {s' : Session} {source : String} {program : List Stmt}
    (h : s.accept source = (s', some program)) :
    let tokens := Token.tokensOf (Token.scan (Text.Utf8.encode source))
    (Syntax.parse tokens s.nextId).errors = [] ∧
      program = (Syntax.parse tokens s.nextId).statements := by
  unfold Session.accept at h
  dsimp only at h
  split at h
  · cases h
  · next hreports =>
    have hnone := List.append_eq_nil_iff.mp (Decidable.not_not.mp hreports)
    split at h
    · cases h
    · cases h
      exact ⟨List.map_eq_nil_iff.mp hnone.2, rfl⟩

theorem shaped_of_accept {s' : Session} {source : String} {program : List Stmt}
    (h : s.accept source = (s', some program)) : stmtsShaped Token.Spelled program := by
  obtain ⟨herrors, rfl⟩ := parsed_of_accept h
  exact parse_shaped herrors fun t ht => Token.spelled_of_mem_scan ht

/-- What the front end leaves: a table in which references from before stand as they stood. -/
theorem accept_machine (s : Session) (source : String) :
    ∃ d, (s.accept source).1.machine = { s.machine with distances := d } ∧
      ∀ id : RefId, id.index < s.nextId → d.find? id = s.machine.distances.find? id := by
  unfold Session.accept
  dsimp only
  split
  · exact ⟨s.machine.distances, rfl, fun _ _ => rfl⟩
  · next hreports =>
    have hnone := List.append_eq_nil_iff.mp (Decidable.not_not.mp hreports)
    have herrors := List.map_eq_nil_iff.mp hnone.2
    have hkept := fun (id : RefId) (hid : id.index < s.nextId) =>
      find?_noteAll_parsed (d := s.machine.distances) herrors (.inl hid)
    split
    · exact ⟨_, rfl, hkept⟩
    · exact ⟨_, rfl, hkept⟩

/-- What a refused source leaves behind. -/
theorem Sound.renumber (h : Sound w s) {n : Nat} {d : Diagnostics} (hn : s.nextId ≤ n) :
    Sound w ⟨s.machine, n, d⟩ := by
  have hlater : Later s.nextId n s.machine s.machine := ⟨.refl _, hn, fun _ _ => rfl⟩
  exact ⟨h.good.later hlater rfl, fun id hid => h.fresh id (Nat.le_trans hn hid)⟩

/-- **Reading and resolving** keep a session sound, and the table fits a program that is let through. -/
theorem accept_sound (source : String) (h : Sound w s) : Sound w (s.accept source).1 ∧
    ∀ program, (s.accept source).2 = some program →
      Loaded (s.accept source).1.machine.distances (s.accept source).1.nextId program := by
  have hends := Syntax.parse_ends (Token.tokensOf (Token.scan (Text.Utf8.encode source))) s.nextId
  unfold Session.accept
  dsimp only
  split
  · exact ⟨h.renumber hends.1, fun program hp => nomatch hp⟩
  · next hreports =>
    have hnone := List.append_eq_nil_iff.mp (Decidable.not_not.mp hreports)
    have herrors := List.map_eq_nil_iff.mp hnone.2
    -- the program that was read, with what is noted about it
    have hsound : Sound w ⟨{ s.machine with distances := s.machine.distances.noteAll (resolve
        (Syntax.parse (Token.tokensOf (Token.scan (Text.Utf8.encode source))) s.nextId).statements) },
        (Syntax.parse (Token.tokensOf (Token.scan (Text.Utf8.encode source))) s.nextId).nextId,
        .empty⟩ := by
      refine ⟨h.good.later ⟨.refl _, hends.1, fun id hid => ?_⟩ rfl, fun id hid => ?_⟩
      · exact find?_noteAll_parsed herrors (.inl hid)
      · exact (find?_noteAll_parsed herrors (.inr hid)).trans (h.fresh id (Nat.le_trans hends.1 hid))
    split
    · exact ⟨hsound.renumber (Nat.le_refl _), fun program hp => nomatch hp⟩
    · next hcomplaints =>
      refine ⟨hsound, fun program hp => ?_⟩
      cases hp
      exact loaded_of_parse herrors (fun t ht => Token.spelled_of_mem_scan ht)
        (List.map_eq_nil_iff.mp (Decidable.not_not.mp hcomplaints)) h.fresh

end Accept

end Lox
