import Lox.Proofs.Grammar.Joining
import Lox.Proofs.Rewriting.Compounds
import Lox.Proofs.Rewriting.Sessions
import Lox.Proofs.Session.Pieces

/-!
# An assignment that computes is an assignment

* `HasWords`: a text without lexical faults, and the words that it consists of. `hasWords_intercalate`: the
  words of a text that is written out are those of a text.
* `HasWords.reading`: **a text in which assignments are written out is read** without a complaint.
* `accepted_writtenOut`: in every text that is let through, all of them can be written out.
* `written_out_assignments_run_alike`: the text with the long assignments is let through as well, and shows
  what the text with the short ones shows, though not in the same places.
-/

namespace Lox

open Syntax (Word WrittenOut grouping)

/-- **A text without lexical faults, and its words**, whatever stands between them. -/
structure HasWords (text : String) (words : List Word) : Prop where
  clean : Token.errorsOf (Token.scan (Text.Utf8.encode text)) = []
  words : (Token.tokensIn (Text.Utf8.encode text)).map Token.word = words

theorem tokensIn_ne_eof (source : List UInt8) : ∀ t ∈ Token.tokensIn source, t.kind ≠ .eof :=
  fun _ ht => of_decide_eq_true (List.mem_filter.mp ht).2

/-- The tokens of a source are those of its pieces. -/
theorem tokensIn_eq (source : List UInt8) :
    Token.tokensIn source = Token.tokensOf (Token.itemsOf Token.start (Token.pieces source)) := by
  have hne := Token.tokensOf_itemsOf_ne_eof Token.start source
  unfold Token.tokensIn
  rw [Token.tokensOf_scan, List.filter_append, List.filter_eq_self.mpr fun t ht => by simpa using hne t ht]
  exact List.append_nil _

/-- A scan ends behind the tokens of the source. -/
theorem tokensOf_scan_eq (source : List UInt8) : Token.tokensOf (Token.scan source)
    = Token.tokensIn source ++ [Token.endAt (Token.after Token.start source)] := by
  rw [tokensIn_eq, Token.tokensOf_scan]

/-- **The words of a text that is written out** are those of a text, with single spaces between them. -/
theorem hasWords_intercalate {source : List UInt8} {s : Syntax.Symbol} {x : s.Tree} {words : List Word}
    (h : WrittenOut s (Token.tokensIn source) x words) :
    HasWords (" ".intercalate (words.map Prod.snd)) words := by
  have hstable := h.stable fun t ht => Token.stable_of_mem_tokensIn ht
  obtain ⟨hclean, hwords⟩ := Token.scan_words hstable Token.start
  exact ⟨(Token.errorsOf_scan _).trans hclean, by rw [tokensIn_eq]; exact hwords⟩

/-- **A text in which assignments are written out is read** without a complaint. -/
theorem HasWords.reading {text : String} {words : List Word} (h : HasWords text words)
    {ts : List Token} {program : List Stmt} (hwritten : WrittenOut .program ts program words) (k : Nat) :
    ∃ program' b, readingOf text k = ⟨program', [], b⟩ ∧ Numbered k b (resolve program') ∧
      StmtsInto grouping none [] program program' := by
  obtain ⟨program', b, hderives, hinto⟩ := hwritten.reads _ h.words k
  have heof : (Token.endAt (Token.after Token.start (Text.Utf8.encode text))).kind = .eof := rfl
  have hparse := Syntax.parse_complete (tokensIn_ne_eof _) heof hderives
  rw [← tokensOf_scan_eq] at hparse
  refine ⟨program', b, ?_, hderives.resolve_numbered, hinto [] shared_nil⟩
  show Reading.ofTokens _ _ _ = _
  rw [h.clean, Reading.ofTokens, hparse]
  rfl

/-- **A text that is let through can be written out entirely.** -/
theorem accepted_writtenOut {s s₁ : Session} {source : String} {program : List Stmt}
    (haccept : s.accept source = (s₁, some program)) :
    ∃ words, WrittenOut .program (Token.tokensIn (Text.Utf8.encode source)) program words ∧
      Syntax.Bare words := by
  obtain ⟨herrors, rfl⟩ := parsed_of_accept haccept
  rw [tokensOf_scan_eq] at herrors ⊢
  exact Syntax.derives_writtenOut (Syntax.parse_nearest (tokensIn_ne_eof _) rfl herrors)

/-- Seen through this, all places are one. -/
def nowhere (_ : Position) : Position := Token.start

/-- **An assignment that computes is an assignment.** Let a session that can be reached let a text through,
    and let any of its assignments `target op= value` be written as `target = target op (value)`, among them
    those inside of targets, values and functions. There are texts with the words that come out, all of them
    are let through, and all of its assignments can be written so. Run as a program or as a line, each of the
    two texts writes, reads, reports and leaves what the other one does, but for the places of reports, if it
    comes to an end; and if it does not, it gets as far as the other one. -/
theorem written_out_assignments_run_alike (fuel : Nat) (sink : Sink) (input : Input) (now : Instant)
    (clock : Clock) (entries : List Entry) (source : String) {s₁ : Session} {program : List Stmt} :
    let s := (Session.start sink input now clock).after fuel entries
    let tokens := Token.tokensIn (Text.Utf8.encode source)
    s.accept source = (s₁, some program) →
    (∃ words, WrittenOut .program tokens program words ∧ Syntax.Bare words) ∧
    ∀ words, WrittenOut .program tokens program words →
      (∃ text, HasWords text words) ∧
      ∀ text, HasWords text words → ∃ s₂ program', s.accept text = (s₂, some program') ∧
        ∀ m : Manner, RunAlike (fun n => (m.run n s₁ program).seen.through nowhere)
          (fun n => (m.run n s₂ program').seen.through nowhere) := by
  intro s tokens haccept
  have hreached : Reached fuel s := ⟨sink, input, now, clock, entries, rfl⟩
  refine ⟨accepted_writtenOut haccept, fun words hwritten =>
    ⟨⟨_, hasWords_intercalate hwritten⟩, fun text htext => ?_⟩⟩
  obtain ⟨program', b, hreading, hnumbered, hinto⟩ := htext.reading hwritten s.nextId
  obtain ⟨hclean, halike⟩ :=
    written_out_runs_alike nowhere (fun _ _ _ => rfl) hreached haccept hinto hnumbered
  have hpasses : Passes text := by
    have hread : Reading.ofBytes (Text.Utf8.encode text) s.nextId = ⟨program', [], b⟩ := hreading
    rw [passes_iff_reading (.refl .none text) s.nextId, hread]
    exact ⟨rfl, hclean⟩
  have htaken : s.accept text = (s.prepared program' b, some program') := by
    have hprogram : s.programOf text = program' := congrArg Reading.statements hreading
    rw [accept_passes hpasses, hreading, Session.loaded, hprogram]
    rfl
  exact ⟨_, _, htaken, halike⟩

/-- Two assignments, one inside of the other. The object of the outer one is made by a call that prints, and
    what it computes is an error. -/
theorem written_out_assignments_run_alike_nested :
    let source := "f().x -= a.x += \"b\";"
    let before := "class A \x7b\x7d var a = A(); a.x = \"a\"; fun f() \x7b print(\"f\"); return a; \x7d"
    let text := "f().x = f().x - (a.x = a.x + (\"b\"));"
    let s := (Session.start .unlimited (.ofBytes []) 0).after 25 [.line before]
    let s₁ := (s.accept source).1
    let token (kind : Token.Kind) (lexeme : String) (column : Nat) : Token := ⟨kind, lexeme, ⟨1, column⟩⟩
    let read (id : Nat) (lexeme : String) (column : Nat) : Expr :=
      .read ⟨⟨id⟩, token .identifier lexeme column⟩
    let x (column : Nat) : Token := token .identifier "x" column
    let object : Expr := .call (read 4 "f" 1) (token .rightParen ")" 3) []
    let inner : Expr := .set (read 5 "a" 10) (x 12) (.binary (.get (read 5 "a" 10) (x 12))
      (token .plus "+" 15) (.literal (.text "b")))
    let program : List Stmt :=
      [.expr (.set object (x 5) (.binary (.get object (x 5)) (token .minus "-" 8) inner))]
    let words := (Token.tokensIn (Text.Utf8.encode text)).map Token.word
    s.accept source = (s₁, some program) ∧
      WrittenOut .program (Token.tokensIn (Text.Utf8.encode source)) program words ∧
      HasWords text words ∧
      (∃ s₂ program', s.accept text = (s₂, some program') ∧
        ∀ m : Manner, RunAlike (fun n => (m.run n s₁ program).seen.through nowhere)
          (fun n => (m.run n s₂ program').seen.through nowhere)) ∧
      (Manner.line.run 25 s₁ program).seen.reports
        = [.runtime (.type "Operands must be numbers." ⟨1, 8⟩)] := by
  intro source before text s s₁ token read x object inner program words
  have hpasses : Passes source := by decide +kernel
  have hnext : s.nextId = 4 := by decide +kernel
  have hread : s.programOf source = program := by
    unfold Session.programOf
    rw [hnext]
    cbv
  have haccept : s.accept source = (s₁, some program) :=
    Prod.ext rfl (by rw [accept_passes hpasses s, hread])
  have hwords : HasWords text words := ⟨by decide +kernel, rfl⟩
  have hreports : (Manner.line.run 25 s₁ program).seen.reports
      = [.runtime (.type "Operands must be numbers." ⟨1, 8⟩)] := by
    rw [← hread]
    decide +kernel
  have hwritten : WrittenOut .program (Token.tokensIn (Text.Utf8.encode source)) program words := by
    have hobject : WrittenOut .call
        ([token .identifier "f" 1] ++ token .leftParen "(" 2 :: ([] ++ [token .rightParen ")" 3])) object
        [(.identifier, "f"), (.leftParen, "("), (.rightParen, ")")] :=
      .apply (.callee (.name rfl)) rfl .noArguments rfl
    have hvariable : WrittenOut .call [token .identifier "a" 10] (read 5 "a" 10) [(.identifier, "a")] :=
      .callee (.name rfl)
    have hliteral : WrittenOut .assignment [token (.string "b") "\"b\"" 19] (.literal (.text "b"))
        [(.string "b", "\"b\"")] := .of_call (.callee (.literal rfl))
    have hplus : (Token.Kind.plusEqual, Token.Kind.plus, "+") ∈ Syntax.compounds := by decide
    have hminus : (Token.Kind.minusEqual, Token.Kind.minus, "-") ∈ Syntax.compounds := by decide
    have hinner : WrittenOut .assignment ([token .identifier "a" 10] ++ token .dot "." 11 :: x 12 ::
        token .plusEqual "+=" 15 :: [token (.string "b") "\"b\"" 19]) inner _ :=
      .setOut hvariable hvariable rfl rfl hplus hliteral
    have houter := WrittenOut.setOut (d := token .dot "." 4) (n := x 5) hobject hobject rfl rfl
      (show ((token .minusEqual "-=" 8).kind, Token.Kind.minus, "-") ∈ Syntax.compounds from hminus) hinner
    have hstatement : WrittenOut (.declaration 0) _ _ _ := .statement (.simple (.expressionStatement
      (t := token .semicolon ";" 20) (.oneAssignment houter) rfl))
    have htokens : Token.tokensIn (Text.Utf8.encode source) =
      (([token .identifier "f" 1] ++ token .leftParen "(" 2 :: ([] ++ [token .rightParen ")" 3])) ++
        token .dot "." 4 :: x 5 :: token .minusEqual "-=" 8 ::
          ([token .identifier "a" 10] ++ token .dot "." 11 :: x 12 :: token .plusEqual "+=" 15 ::
            [token (.string "b") "\"b\"" 19]) ++ [token .semicolon ";" 20]) ++ [] := by decide +kernel
    have hsplit : words = Syntax.assignmentWords
        [(.identifier, "f"), (.leftParen, "("), (.rightParen, ")"), (.dot, "."), (.identifier, "x")]
        [(.identifier, "f"), (.leftParen, "("), (.rightParen, ")"), (.dot, "."), (.identifier, "x")]
        (.minus, "-")
        (Syntax.assignmentWords [(.identifier, "a"), (.dot, "."), (.identifier, "x")]
          [(.identifier, "a"), (.dot, "."), (.identifier, "x")] (.plus, "+") [(.string "b", "\"b\"")])
        ++ [(.semicolon, ";")] := by decide +kernel
    have hprogram := hstatement.moreDeclarations .noDeclarations
    rw [htokens, hsplit]
    exact hprogram
  exact ⟨haccept, hwritten, hwords,
    ((written_out_assignments_run_alike 25 .unlimited (.ofBytes []) 0 .steady [.line before] source haccept).2 words
      hwritten).2 text hwords, hreports⟩

end Lox
