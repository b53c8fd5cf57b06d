import Lox.Proofs.Scope.Sightings
import Lox.Proofs.Session.Pieces

/-!
# The table of distances

Every source that can be read is walked once, and the walk notes how far out its references are bound.
The table is never cleared, and the walk comes by a reference in a copied part more than once.

* `Session.walks`: the programs that are walked in a session, one an entry.
* `find?_noteAll_sighted`: where the sightings of a reference are the same, the table has what they found.
* `feed_distances`, `walk_sighted`: what one step adds to the table, and to the sightings.
* `walks_distances`: what all the steps of a session add, with `Sighted` as the invariant.
* `references_keep_their_depth`: so **the table has one answer for each reference**, the one of every
  sighting of it.
-/

namespace Lox

/-! ## 1. Walks -/

/-- The program that is walked in a step: nothing of a source that could not be read. -/
def Session.walk (s : Session) (entry : Entry) : List Stmt :=
  match entry.source? with
  | none => []
  | some source =>
    if (readingOf source s.nextId).reports = [] then (readingOf source s.nextId).statements else []

/-- **The programs that are walked in a session**, one an entry. -/
def Session.walks (fuel : Nat) (s : Session) : List Entry → List (List Stmt)
  | [] => []
  | e :: rest => s.walk e :: walks fuel (s.feed fuel e).session rest

/-! ## 2. What stands in the table -/

/-- **One answer for each reference**: sightings of one reference that are the same leave in the table
    what each of them found. -/
theorem find?_noteAll_sighted {a b : Nat} {found : List Finding} {seen : List Sighting}
    (h : Sighted a b seen) (hlooked : lookedUp found = lookedAt seen) {v : Sighting}
    (hv : v ∈ seen) :
    (Distances.empty.noteAll found).find? v.ref.id = v.depth? := by
  have hone : ∀ ref depth, .reference ref depth ∈ found → ref.id = v.ref.id → depth = v.depth? := by
    intro ref depth hr hid
    obtain ⟨v', hv', rfl, rfl⟩ := sighting_of_reference hlooked hr
    rw [h.same v' hv' v hv hid]
  cases hk : v.depth? with
  | some k =>
    exact Distances.find?_noteAll_new rfl (reference_of_sighting hlooked hv hk) fun ref depth hr hid =>
      (hone ref depth hr hid).trans hk
  | none =>
    exact Distances.find?_noteAll_same fun ref depth hr hid => ((hone ref depth hr hid).trans hk).symm

/-! ## 3. Sessions -/

section Sessions

variable {fuel : Nat} {s : Session}

theorem walk_source (s : Session) (m : Manner) (source : String) :
    s.walk (m.entry source)
      = if (readingOf source s.nextId).reports = [] then (readingOf source s.nextId).statements
        else [] := by
  cases m <;> rfl

/-- The front end notes what the walk finds out. -/
theorem accept_distances (s : Session) (m : Manner) (source : String) :
    (s.accept source).1.machine.distances
      = s.machine.distances.noteAll (resolve (s.walk (m.entry source))) := by
  rw [walk_source]
  unfold Session.accept
  by_cases hreports : (readingOf source s.nextId).reports = []
  · rw [if_pos hreports]
    dsimp only
    rw [if_neg (not_not_intro hreports)]
    split <;> rfl
  · rw [if_neg hreports]
    dsimp only
    rw [if_pos hreports]
    rfl

/-- A step with a source: the front end, and a run of the program that it let through. -/
theorem feed_source (fuel : Nat) (s : Session) (m : Manner) (source : String) :
    s.feed fuel (m.entry source) =
      match s.accept source with
      | (s', none) => ⟨s', none⟩
      | (s', some program) => m.run fuel s' program := by
  cases m <;> rfl

/-- **A step notes what its walk finds out**, and a run leaves the table as it is. -/
theorem feed_distances (h : Reached fuel s) (entry : Entry) :
    (s.feed fuel entry).session.machine.distances
      = s.machine.distances.noteAll (resolve (s.walk entry)) := by
  have hsource (m : Manner) (source : String) :
      (s.feed fuel (m.entry source)).session.machine.distances
        = s.machine.distances.noteAll (resolve (s.walk (m.entry source))) := by
    rw [← accept_distances s m source, feed_source]
    rcases haccept : s.accept source with ⟨s', _ | program⟩
    · rfl
    · rw [← List.append_nil program] at haccept
      exact front_distances m h haccept
  cases entry with
  | file source => exact hsource .file source
  | line source => exact hsource .line source
  | outside sink input now clock => rfl

/-- What is walked in a step is seen with references from those that are free before the step up to
    those that are free behind it. -/
theorem walk_sighted (fuel : Nat) (s : Session) (entry : Entry) :
    Sighted s.nextId (s.feed fuel entry).session.nextId (programSightings (s.walk entry)) := by
  have hsource (m : Manner) (source : String) : Sighted s.nextId
      (s.feed fuel (m.entry source)).session.nextId (programSightings (s.walk (m.entry source))) := by
    have hnext : (s.feed fuel (m.entry source)).session.nextId = (s.accept source).1.nextId := by
      rw [feed_source]
      rcases s.accept source with ⟨s', _ | program⟩
      · rfl
      · exact run_nextId m s' program
    rw [hnext, accept_nextId, walk_source]
    split
    · next hreports =>
      have herrors := List.map_eq_nil_iff.mp (List.append_eq_nil_iff.mp hreports).2
      exact (Syntax.derives_sighted (Syntax.parse_derives herrors)).2 ⟨.none, .none⟩ []
    · exact .nil
  cases entry with
  | file source => exact hsource .file source
  | line source => exact hsource .line source
  | outside sink input now clock => exact .nil

theorem lookedUp_resolve (program : List Stmt) :
    lookedUp (resolve program) = lookedAt (programSightings program) := by
  rw [resolve_eq]
  exact body_looked_findings ⟨.none, .none⟩ [] program

/-- What all the walks find out is what is looked up at their sightings. -/
theorem lookedUp_walks (programs : List (List Stmt)) :
    lookedUp (programs.flatMap resolve) = lookedAt (programs.flatMap programSightings) := by
  induction programs with
  | nil => rfl
  | cons program rest ih =>
    rw [List.flatMap_cons, List.flatMap_cons, lookedUp_append, lookedAt_append, ih, lookedUp_resolve]

/-- **The walks of a session** leave the table with all that they found out, and are seen with
    references that are free before them and taken behind them. -/
theorem walks_distances (h : Reached fuel s) (entries : List Entry) :
    (s.after fuel entries).machine.distances
        = s.machine.distances.noteAll ((s.walks fuel entries).flatMap resolve) ∧
      s.nextId ≤ (s.after fuel entries).nextId ∧
      Sighted s.nextId (s.after fuel entries).nextId
        ((s.walks fuel entries).flatMap programSightings) := by
  induction entries generalizing s with
  | nil => exact ⟨rfl, Nat.le_refl _, .nil⟩
  | cons e rest ih =>
    obtain ⟨htable, hle, hsighted⟩ := ih (h.feed e)
    have hstep : s.nextId ≤ (s.feed fuel e).session.nextId := nextId_le_feed s e
    refine ⟨?_, Nat.le_trans hstep hle, ?_⟩
    · rw [Session.walks, List.flatMap_cons, Distances.noteAll_append, ← feed_distances h e, ← htable]
      rfl
    · rw [Session.walks, List.flatMap_cons]
      exact (walk_sighted fuel s e).append hsighted hstep hle

/-- **The table of distances has one answer for each reference.** In every session, the table holds
    what the walks found out, and all that they found out was looked up at sightings of references. Two
    sightings of one reference are in the same context and the same scopes, whether they are in copies
    or not; so the table has in the end what each sighting found, nothing where one found nothing, and
    no distance is ever noted over another. -/
theorem references_keep_their_depth (fuel : Nat) (sink : Sink) (input : Input) (now : Instant)
    (clock : Clock) (entries : List Entry) :
    let s := Session.start sink input now clock
    let found := (s.walks fuel entries).flatMap resolve
    let seen := (s.walks fuel entries).flatMap programSightings
    let table := (s.after fuel entries).machine.distances
    table = Distances.empty.noteAll found ∧ lookedUp found = lookedAt seen ∧
    (∀ v ∈ seen, ∀ v' ∈ seen, v.ref.id = v'.ref.id → v = v') ∧
    (∀ v ∈ seen, table.find? v.ref.id = v.depth?) ∧
    ∀ before ref depth behind, found = before ++ .reference ref (some depth) :: behind →
      ∀ depth', (Distances.empty.noteAll before).find? ref.id = some depth' → depth' = depth := by
  intro s found seen table
  have hreached : Reached fuel s := ⟨sink, input, now, clock, [], rfl⟩
  obtain ⟨htable, -, hsighted⟩ := walks_distances hreached entries
  have hlooked : lookedUp found = lookedAt seen := lookedUp_walks _
  refine ⟨htable, hlooked, hsighted.same, fun v hv => ?_, ?_⟩
  · rw [show table = Distances.empty.noteAll found from htable]
    exact find?_noteAll_sighted hsighted hlooked hv
  · intro before ref depth behind hfound depth' hfind
    rcases Distances.find?_noteAll hfind with hempty | ⟨ref', hid, hr⟩
    · cases hempty
    -- both distances were noted at sightings of one reference
    · have hmem : .reference ref (some depth) ∈ found := by simp [hfound]
      have hmem' : .reference ref' (some depth') ∈ found :=
        hfound ▸ List.mem_append_left _ hr
      obtain ⟨v, hv, rfl, hdepth⟩ := sighting_of_reference hlooked hmem
      obtain ⟨v', hv', rfl, hdepth'⟩ := sighting_of_reference hlooked hmem'
      rw [hsighted.same v' hv' v hv hid] at hdepth'
      exact Option.some.inj (hdepth'.symm.trans hdepth)

/-- A property of an object is assigned with `+=` in the second line: its object is copied, and seen
    twice. -/
example :
    let s := Session.start .unlimited (.ofBytes []) 0
    let v : Sighting := ⟨.name, ⟨⟨1⟩, ⟨.identifier, "a", ⟨1, 8⟩⟩⟩, ⟨.none, .none⟩, [[("a", true)]]⟩
    ((s.walks 0 [.line "b;", .line "\x7bvar a;a.b += nil;\x7d"]).flatMap programSightings).tail
      = [v, v] := by cbv

end Sessions

end Lox
