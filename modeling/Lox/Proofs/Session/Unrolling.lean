import Lox.Proofs.Rewriting.Sessions

/-!
# A `for` loop is a `while` loop in a block

* `unrolling`: any `for` loop may be written as a `while` loop. The initializer stands in front of it in a
  block, and the increment behind its body and in front of each `continue` of it. Tokens stay, and references
  may have any numbers.
* `for_loops_run_as_while_loops`: **the program with the `while` loops** is let through, and shows what the
  program with the `for` loops shows.
-/

namespace Lox

/-- **`for` loops are written as `while` loops**, where no name that an increment uses is declared between it
    and a `continue`. -/
def unrolling : Rewriting where
  ref _ _ _ := True
  super _ _ _ := True
  pos p p' := p' = p
  groups := False
  unrolls := True
  pos_refl _ := rfl

/-- Which variable each reference among some findings means. -/
def referencesOf (found : List Finding) : List (RefId × Option Nat) :=
  found.filterMap fun
    | .complaint _ _ => none
    | .reference ref depth => some (ref.id, depth)

theorem mem_referencesOf {found : List Finding} {id : RefId} {depth : Option Nat} :
    (id, depth) ∈ referencesOf found ↔ ∃ ref, .reference ref depth ∈ found ∧ ref.id = id := by
  unfold referencesOf
  rw [List.mem_filterMap]
  constructor
  · rintro ⟨f, hf, hid⟩
    cases f with
    | complaint => cases hid
    | reference ref d =>
      cases hid
      exact ⟨ref, hf, rfl⟩
  · rintro ⟨ref, hf, rfl⟩
    exact ⟨_, hf, rfl⟩

theorem numbered_iff {a b : Nat} {found : List Finding} : Numbered a b found ↔
    (∀ p ∈ referencesOf found, a ≤ p.1.index ∧ p.1.index < b) ∧
      ∀ p ∈ referencesOf found, ∀ q ∈ referencesOf found, p.1 = q.1 → p.2 = q.2 := by
  constructor
  · intro h
    refine ⟨fun p hp => ?_, fun p hp q hq hpq => ?_⟩
    · obtain ⟨ref, hf, hid⟩ := mem_referencesOf.mp hp
      exact hid ▸ h.range ref p.2 hf
    · obtain ⟨ref, hf, hid⟩ := mem_referencesOf.mp hp
      obtain ⟨ref', hf', hid'⟩ := mem_referencesOf.mp hq
      exact h.single ref ref' p.2 q.2 hf hf' (hid.trans (hpq.trans hid'.symm))
  · rintro ⟨hrange, hsingle⟩
    refine ⟨fun ref d hf => hrange (ref.id, d) (mem_referencesOf.mpr ⟨ref, hf, rfl⟩),
      fun ref ref' d d' hf hf' hid => ?_⟩
    exact hsingle (ref.id, d) (mem_referencesOf.mpr ⟨ref, hf, rfl⟩) (ref'.id, d')
      (mem_referencesOf.mpr ⟨ref', hf', rfl⟩) hid

instance (a b : Nat) (found : List Finding) : Decidable (Numbered a b found) :=
  decidable_of_iff _ numbered_iff.symm

theorem Seen.through_id (o : Seen) : o.through id = o := by
  have hreports : o.reports.map (Report.mapPos id) = o.reports := by
    refine (List.map_congr_left fun r _ => ?_).trans (List.map_id _)
    cases r with
    | runtime e => cases e <;> rfl
    | _ => rfl
  unfold Seen.through
  rw [hreports]

/-- **A `for` loop is a `while` loop in a block.** Let a session that can be reached let a program through,
    and let any of its `for` loops be written as `while` loops, with references that are new and of which no
    two have one number for different variables. Then the program keeps the rules of scoping as it did. Run
    as a program or as a line, each of the two writes, reads, reports and leaves what the other one does, if
    it comes to an end; and if it does not, it gets as far as the other one. -/
theorem for_loops_run_as_while_loops (fuel : Nat) (sink : Sink) (input : Input) (now : Instant)
    (clock : Clock) (entries : List Entry) (source : String) {s₁ : Session} {program program' : List Stmt}
    {b : Nat} :
    let s := (Session.start sink input now clock).after fuel entries
    s.accept source = (s₁, some program) →
    StmtsInto unrolling none [] program program' →
    Numbered s.nextId b (resolve program') →
    complaintsOf (resolve program') = [] ∧
      ∀ m : Manner, RunAlike (fun n => (m.run n s₁ program).seen)
        (fun n => (m.run n (s.prepared program' b) program').seen) := by
  intro s haccept hinto hnumbered
  have hreached : Reached fuel s := ⟨sink, input, now, clock, entries, rfl⟩
  obtain ⟨hclean, halike⟩ :=
    written_out_runs_alike id (fun _ _ hp => hp) hreached haccept hinto hnumbered
  simp only [Seen.through_id] at halike
  exact ⟨hclean, halike⟩

/-- A loop whose body declares a variable and ends in a `continue`, behind a function of an earlier line. -/
theorem for_loops_run_as_while_loops_continue :
    let source := "for (var i = true; i; i = false) \x7b var x = i; log(x); continue; \x7d"
    let s := (Session.start .unlimited (.ofBytes []) 0).after 9 [.line "fun log(x) \x7b print(x); \x7d"]
    let s₁ := (s.accept source).1
    let name (lexeme : String) (column : Nat) : Token := ⟨.identifier, lexeme, ⟨1, column⟩⟩
    let read (id : Nat) (lexeme : String) (column : Nat) : Expr := .read ⟨⟨id⟩, name lexeme column⟩
    let start : Stmt := .varDecl (name "i" 10) (.literal (.bool true))
    let increment (id : Nat) : Expr := .assign ⟨⟨id⟩, name "i" 23⟩ (.literal (.bool false))
    let first (id : Nat) : Stmt := .varDecl (name "x" 40) (read id "i" 44)
    let second (f x : Nat) : Stmt := .expr (.call (read f "log" 49)
      ⟨.rightParen, ")", ⟨1, 52⟩⟩ [read x "x" 51])
    let next : Token := ⟨.kwContinue, "continue", ⟨1, 62⟩⟩
    let program : List Stmt :=
      [.forLoop (some start) (read 2 "i" 20) (some (increment 4)) (.block [first 5, second 6 7, .next next])]
    let program' : List Stmt :=
      [.block [start, .whileLoop (read 2 "i" 20) (.block [
        .block [first 3, second 4 5, .block [.expr (increment 6), .next next]], .expr (increment 7)])]]
    s.accept source = (s₁, some program) ∧ StmtsInto unrolling none [] program program' ∧
      Numbered s.nextId 8 (resolve program') ∧
      (complaintsOf (resolve program') = [] ∧
        ∀ m : Manner, RunAlike (fun n => (m.run n s₁ program).seen)
          (fun n => (m.run n (s.prepared program' 8) program').seen)) ∧
      (Manner.file.run 25 (s.prepared program' 8) program').seen.sink.written.toList
        = Text.Utf8.encode "true\n" := by
  intro source s s₁ name read start increment first second next program program'
  have hpasses : Passes source := by decide +kernel
  have hnext : s.nextId = 2 := by decide +kernel
  have hread : s.programOf source = program := by
    unfold Session.programOf Reading.ofBytes
    rw [hnext, Token.scan_pieces]
    cbv
  have haccept : s.accept source = (s₁, some program) :=
    Prod.ext rfl (by rw [accept_passes hpasses s, hread])
  have htoken : ∀ t : Token, unrolling.Token t t := fun _ => ⟨rfl, rfl, rfl⟩
  have hread : ∀ slots id id' lexeme column,
      ExprInto unrolling slots (read id lexeme column) (read id' lexeme column) :=
    fun _ _ _ _ _ => .read ⟨htoken _, trivial⟩
  have hincrement : ∀ slots id id',
      OptionExprInto unrolling slots (some (increment id)) (some (increment id')) :=
    fun _ _ _ => .some (.assign ⟨htoken _, trivial⟩ .literal)
  have hbody : StmtInto unrolling (some ⟨some (increment 4), [.added, .shared]⟩) [.added, .shared]
      (.block [first 5, second 6 7, .next next])
      (.block [first 3, second 4 5, asNext next (some (increment 6))]) := by
    refine .block ?_ (.cons (.varDecl (innermost_shared _) (htoken _) (hread ..)) (.cons
      (.expr (.call (hread ..) (htoken _) (.cons (hread ..) .nil)))
      (.cons (.continued (hincrement ..) (htoken _)) .nil)))
    rintro _ ⟨⟩ n hn
    obtain rfl : n = "x" := List.mem_singleton.mp hn
    decide
  have hinto : StmtsInto unrolling none [] program program' :=
    .cons (.unrolled trivial (.varDecl (htoken _) .literal) (hread ..) (hincrement ..) hbody) .nil
  have hnumbered : Numbered s.nextId 8 (resolve program') := by
    rw [hnext]
    decide +kernel
  exact ⟨haccept, hinto, hnumbered,
    for_loops_run_as_while_loops 9 .unlimited (.ofBytes []) 0 .steady [.line "fun log(x) \x7b print(x); \x7d"]
      source haccept hinto hnumbered, by decide +kernel⟩

end Lox
