import Lox.Proofs.Renaming.Trees
import Lox.Proofs.Session.Pieces

/-!
# Names of locals do not matter

A program with another name for one of its locals is scoped as the program is, and runs as it does.

* `depth_like`: every name lies as far out in the scopes of both programs.
* `DepthsAgree.of_rename`: so every reference does, and no rule of scoping is broken
  (`resolve_renamed`).
* `Reached.renamed_like`: a session is like itself where the new name may be a name of other programs.
* `RenamedReport`: what both programs report.
* `renamed_locals_run_alike`: **what is seen of both programs** is the same, but for that name.
-/

namespace Lox

variable {R : NewName} {program : List Stmt} {others : Prop}

/-! ## 1. Scoping -/

theorem BindingsLike.binds_inv {α : Type} {V : α → α → Prop} {r : Renaming} {b b' : Bindings α}
    (h : BindingsLike V r b b') {n' : String} (hb : b'.binds n' = true) :
    ∃ n, n' = r.new n ∧ b.binds n = true := by
  induction h with
  | nil => cases hb
  | @cons p p' rest rest' hp _ ih =>
    unfold Bindings.binds Bindings.find? at hb ⊢
    by_cases hn : p'.1 = n'
    · exact ⟨p.1, by rw [← hn, hp.1], by simp⟩
    · rw [if_neg hn] at hb
      obtain ⟨n, hnew, hbinds⟩ := ih hb
      refine ⟨n, hnew, ?_⟩
      have hother : p.1 ≠ n := fun heq => hn (by rw [hp.1, heq, hnew])
      rw [if_neg hother]
      exact hbinds

theorem spelled_cons (r : Renaming) (keys : List Renaming) (d : Option Nat) (n : String) :
    spelled (r :: keys) (d.map (· + 1)) n = spelled keys d n := by
  cases d <;> rfl

/-- **Every name lies as far out** in the scopes of both programs. -/
theorem depth_like {keys : List Renaming} {scopes scopes' : Scopes}
    (h : ScopesLike (R.likeness program False) keys scopes scopes') {n : String} (hn : n ≠ R.name) :
    scopes'.depthOf? (spelled keys (scopes.depthOf? n) n) = scopes.depthOf? n := by
  have hspelled : ∀ {keys : List Renaming} {scopes scopes' : Scopes} (d : Option Nat),
      ScopesLike (R.likeness program False) keys scopes scopes' →
        ∃ marked, spelled keys d n = (R.key marked).new n := by
    intro keys scopes scopes' d h
    obtain ⟨marked, hmarked⟩ := h.scope_at d
    exact ⟨marked, by rw [spelled, hmarked]⟩
  induction h with
  | nil => rfl
  | @cons r keys s s' outer outer' hr hs hnames houter ih =>
    by_cases hb : s.binds n = true
    · have hfirst : Scopes.depthOf? (s :: outer) n = some 0 := if_pos hb
      rw [hfirst]
      exact if_pos ((hs.binds n).trans hb)
    · have hlater : Scopes.depthOf? (s :: outer) n = (outer.depthOf? n).map (· + 1) := if_neg hb
      rw [hlater, spelled_cons, Scopes.depthOf?, ih, if_neg]
      -- what binds the name in the second scope is the name itself in the first
      intro hb'
      obtain ⟨marked, hmarked⟩ := hr
      obtain ⟨marked', hspelled⟩ := hspelled (outer.depthOf? n) houter
      obtain ⟨m, hm, hbinds⟩ := hs.binds_inv hb'
      rw [hspelled, hmarked] at hm
      have hsame := R.key_inj hn ((hnames m hbinds).resolve_left id) hm
      exact hb (hsame ▸ hbinds)

/-- What is noted about references is what was found out about them. -/
theorem DepthsAgree.of_rename {found : List Finding} (hclean : Clean found)
    (hnoted : ∀ ref depth, .reference ref depth ∈ found → R.distances.find? ref.id = depth) :
    DepthsAgree (R.likeness program False) found where
  depth := by
    rintro keys scopes scopes' ref ref' hs ⟨hne, hname, -⟩ hf
    rw [hnoted ref _ hf] at hname
    exact ⟨hname, by rw [hname]; exact depth_like hs (hne.resolve_left id)⟩
  complaint _ hf := absurd hf (hclean _ _)

theorem likeness_id {keys : List Renaming} {ref ref' : Reference}
    (h : (R.likeness program others).ref keys ref ref') : ref'.id = ref.id := by
  obtain ⟨-, -, rfl | ⟨-, rfl⟩⟩ := h <;> rfl

/-- **Nothing is complained about, and the same distances are noted.** -/
theorem FindingsLike.renamed {found found' : List Finding}
    (h : FindingsLike (R.likeness program others) found found') (hclean : Clean found) :
    Clean found' ∧ ∀ d : Distances, d.noteAll found' = d.noteAll found := by
  induction h with
  | nil => exact ⟨hclean, fun _ => rfl⟩
  | @cons f f' rest rest' hf _ ih =>
    cases hf with
    | complaint => exact absurd List.mem_cons_self (hclean _ _)
    | @reference keys ref ref' depth href =>
      obtain ⟨hrest, hnoted⟩ := ih fun c t hc => hclean c t (List.mem_cons_of_mem _ hc)
      refine ⟨fun c t hc => ?_, fun d => ?_⟩
      · rcases List.mem_cons.mp hc with hc | hc
        · cases hc
        · exact hrest c t hc
      · rw [Distances.noteAll_cons, Distances.noteAll_cons, hnoted]
        cases depth with
        | none => rfl
        | some k =>
          show (d.note ref'.id k).noteAll rest = (d.note ref.id k).noteAll rest
          rw [likeness_id href]

/-- **A program with the new name keeps the rules of scoping**, and its references lie as far out. -/
theorem resolve_renamed (hfresh : R.Fresh program)
    (hnoted : ∀ ref depth, .reference ref depth ∈ resolve program →
      R.distances.find? ref.id = depth) :
    complaintsOf (resolve (renameAll R [] program)) = [] ∧
      ∀ d : Distances, d.noteAll (resolve (renameAll R [] program)) = d.noteAll (resolve program) := by
  have hclean : Clean (resolve program) := (resolve_clean_iff hfresh.shaped).mpr hfresh.rules
  have hlike : StmtsLike (R.likeness program False) [] program (renameAll R [] program) :=
    StmtsLike.of_rename 0 hfresh
  obtain ⟨hrenamed, htable⟩ := (resolve_like hlike (.of_rename hclean hnoted)).renamed hclean
  exact ⟨complaintsOf_eq_nil.mpr hrenamed, htable⟩

/-! ## 2. Sessions -/

/-- **A session that runs a program is like itself** where the program may have the new name, as may
    the programs before it. -/
theorem Reached.renamed_like {fuel : Nat} {s : Session} (h : Reached fuel s) (source : String)
    (hR : R.distances = (s.accept source).1.machine.distances) :
    ∃ κs, MachineLike (R.likeness program True) κs (s.accept source).1.machine
      (s.accept source).1.machine := by
  obtain ⟨κs, hm⟩ := (h.self_like .none).machine
  obtain ⟨d, hmachine, -⟩ := accept_machine s source
  have hwithin : (Likeness.plain (given s.nextId) .none).Within (R.likeness program True) := by
    refine ⟨fun hr => ⟨false, hr⟩, fun _ => .inl trivial, ?_, id⟩
    rintro keys ⟨⟨i⟩, kind, lexeme, pos⟩ ⟨⟨i'⟩, kind', lexeme', pos'⟩ ⟨hkeys, hids, htoken⟩
    obtain rfl : i' = i := hids.1
    obtain rfl : kind' = kind := htoken.kind
    obtain rfl : lexeme' = lexeme := htoken.lexeme
    obtain rfl : pos' = pos := htoken.pos
    exact ⟨.inl trivial, (spelled_same hkeys _ _).symm, .inl rfl⟩
  rw [hmachine] at hR ⊢
  refine ⟨κs, hm.mono hwithin fun href => ⟨by rw [likeness_id href], ?_⟩⟩
  rw [← show R.distances = d from hR]
  exact href.2.1

/-- **What two runs report**, the second with the new name: the same, or that the variable is undefined
    under its other name. A report does not say which reference it is about, and another program may
    have one of the old name in the same place, so this is no function of the report. -/
inductive RenamedReport (R : NewName) (program : List Stmt) : Report → Report → Prop where
  | same {r} : RenamedReport R program r r
  | undefined {ref} (h : R.Binds program ref) :
      RenamedReport R program (.runtime (.undefinedVariable R.decl.lexeme ref.token.pos))
        (.runtime (.undefinedVariable R.name ref.token.pos))

theorem ReportLike.renamed {r r' : Report} (h : ReportLike (R.likeness program others) r r') :
    RenamedReport R program r r' := by
  cases h with
  | lexical hp | parse hp | static hp =>
    obtain rfl := hp
    exact .same
  | io => exact .same
  | runtime h =>
    cases h with
    | type hp | divisionByZero hp | undefinedProperty hp | arity hp | native hp =>
      obtain rfl := hp
      exact .same
    | undefinedVariable h =>
      rcases h with htoken | ⟨ref, hbinds, rfl, rfl⟩
      · rw [htoken.lexeme, htoken.pos]
        exact .same
      · rw [show ref.token.lexeme = R.decl.lexeme from hbinds.1]
        exact .undefined hbinds

/-- **What is seen of two runs**, the second with the new name. -/
structure SeenRenamed (R : NewName) (program : List Stmt) (o o' : Seen) : Prop where
  reports : List.Forall₂ (RenamedReport R program) o.reports o'.reports
  hasStatic : o'.hasStatic = o.hasStatic
  hasRuntime : o'.hasRuntime = o.hasRuntime
  sink : o'.sink = o.sink
  input : o'.input = o.input
  names : o'.names = o.names
  starved : o'.starved = o.starved

theorem SeenLike.renamed {o o' : Seen} (h : SeenLike (R.likeness program others) o o') :
    SeenRenamed R program o o' :=
  ⟨h.reports.imp fun _ _ hr => hr.renamed, h.hasStatic, h.hasRuntime, h.sink, h.input, h.names,
    h.starved⟩

/-- **Names of locals do not matter.** Let a session that can be reached let a program through, and let
    the variable or the parameter that a token declares in a scope of the program have another name
    there, and wherever scoping binds a reference to it. If the source has the new name nowhere, the
    program with it keeps the rules of scoping as well, and the same distances are noted for its
    references. Run as a program or as a line, it writes, reads and leaves what the program does, and
    reports the same errors, but that the variable is undefined under its new name. That it is no name
    of a native function is not needed. -/
theorem renamed_locals_run_alike (fuel : Nat) (sink : Sink) (input : Input) (now : Instant)
    (clock : Clock) (entries : List Entry) (source : String) {s' : Session} {program : List Stmt} (decl : Token)
    (name : String) (hdecl : Plain decl.lexeme) (hname : Plain name) :
    let s := (Session.start sink input now clock).after fuel entries
    let R : NewName := ⟨s'.machine.distances, decl, name, hdecl, hname⟩
    let renamed := renameAll R [] program
    s.accept source = (s', some program) →
    (∀ t ∈ Token.tokensOf (Token.scan (Text.Utf8.encode source)), t.lexeme ≠ name) →
    complaintsOf (resolve renamed) = [] ∧
      s.machine.distances.noteAll (resolve renamed) = s'.machine.distances ∧
      ∀ m : Manner, SeenRenamed R program (m.run fuel s' program).seen (m.run fuel s' renamed).seen := by
  intro s R renamed haccept hnew
  have hreached : Reached fuel s := ⟨sink, input, now, clock, entries, rfl⟩
  have hpasses : Passes source := (accept_isSome_iff s source).mp (by rw [haccept]; rfl)
  have hloaded := haccept.symm.trans (accept_passes hpasses s)
  obtain ⟨hs', hprogram⟩ := Prod.mk.inj hloaded
  obtain rfl : program = s.programOf source := Option.some.inj hprogram
  have htable : R.distances = s.machine.distances.noteAll (resolve (s.programOf source)) :=
    congrArg (fun s' => s'.machine.distances) hs'
  have hfresh : R.Fresh (s.programOf source) := by
    have hshaped : stmtsShaped (fun t => t.Spelled ∧ t.lexeme ≠ name) (s.programOf source) :=
      parse_shaped (hpasses.parsed s.nextId) fun t ht => ⟨Token.spelled_of_mem_scan ht, hnew t ht⟩
    exact ⟨hshaped, (resolve_clean_iff hshaped).mp
      (complaintsOf_eq_nil.mp (hpasses.resolved s.nextId))⟩
  obtain ⟨hclean, hnoted⟩ := resolve_renamed hfresh fun ref depth hf => by
    rw [htable]
    exact noted_of_parse (hpasses.parsed s.nextId) hreached.fresh hf
  refine ⟨hclean, (hnoted s.machine.distances).trans htable.symm, fun m => ?_⟩
  have hself : ReportedLike (R.likeness (s.programOf source) True) 0 s' s' := by
    obtain rfl : (s.accept source).1 = s' := congrArg Prod.fst haccept
    refine ⟨⟨hreached.renamed_like source rfl, rfl⟩, ?_⟩
    rw [hs']
    exact .empty
  have hlike : StmtsLike (R.likeness (s.programOf source) True) [.same] (s.programOf source) renamed :=
    StmtsLike.of_rename 1 hfresh
  exact (run_like fuel m hself hlike).seen.renamed

/-- A variable that a function reads before it is made: it is undefined under its new name. -/
theorem renamed_locals_run_alike_initializer :
    let source := "\x7b var x = fun () \x7b return x; \x7d (); \x7d"
    let s := (Session.start .unlimited (.ofBytes []) 0).after 9 [.line "var y = 1;"]
    let s' := (s.accept source).1
    let program := s.programOf source
    ∃ R : NewName, R.decl = ⟨.identifier, "x", ⟨1, 7⟩⟩ ∧ R.name = "y" ∧
      s.accept source = (s', some program) ∧
      (∀ t ∈ Token.tokensOf (Token.scan (Text.Utf8.encode source)), t.lexeme ≠ "y") ∧
      (complaintsOf (resolve (renameAll R [] program)) = [] ∧
        s.machine.distances.noteAll (resolve (renameAll R [] program)) = s'.machine.distances ∧
        ∀ m : Manner, SeenRenamed R program (m.run 9 s' program).seen
          (m.run 9 s' (renameAll R [] program)).seen) ∧
      (Manner.line.run 9 s' (renameAll R [] program)).seen.reports
        = [.runtime (.undefinedVariable "y" ⟨1, 27⟩)] := by
  intro source s s' program
  have hpasses : Passes source := by decide +kernel
  have haccept : s.accept source = (s', some program) := Prod.ext rfl (by rw [accept_passes hpasses s])
  have hnew : ∀ t ∈ Token.tokensOf (Token.scan (Text.Utf8.encode source)), t.lexeme ≠ "y" := by
    decide +kernel
  exact ⟨⟨s'.machine.distances, ⟨.identifier, "x", ⟨1, 7⟩⟩, "y", ⟨by decide, by decide⟩,
      ⟨by decide, by decide⟩⟩, rfl, rfl, haccept, hnew,
    renamed_locals_run_alike 9 .unlimited (.ofBytes []) 0 .steady [.line "var y = 1;"] source
      ⟨.identifier, "x", ⟨1, 7⟩⟩ "y" ⟨by decide, by decide⟩ ⟨by decide, by decide⟩ haccept hnew,
    by decide +kernel⟩

end Lox
