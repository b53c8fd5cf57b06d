import Lox.Proofs.Grammar.Completeness
import Lox.Proofs.Grammar.Nearest

/-!
# Programs behind each other

The tokens of two programs behind each other are a program, whose statements are those of the first and
behind them those of the second. No statement goes on over the end of a program: an `else` would have
to start the second one, and what follows a statement never changes how it is read.
-/

namespace Lox.Syntax

theorem program_append {g : ElseRule} {loops a b c : Nat} {ts us : List Token} {ss rest : List Stmt}
    (h : Derives g (.declarations loops) a ts ss b)
    (hrest : Derives g (.declarations loops) b us rest c) :
    Derives g (.declarations loops) a (ts ++ us) (ss ++ rest) c := by
  induction ss generalizing a ts with
  | nil =>
    cases h with
    | noDeclarations => exact hrest
  | cons s ss ih =>
    cases h with
    | moreDeclarations hs hss =>
      rw [List.append_assoc]
      exact .moreDeclarations hs (ih hss)

section Parse

variable {tokens more : List Token} {eof end₁ : Token} {nextId : Nat}

/-- What a parse without a complaint builds has each `else` at the nearest `if`. -/
theorem parse_nearest (hts : ∀ t ∈ tokens, t.kind ≠ .eof) (heof : eof.kind = .eof)
    (h : (parse (tokens ++ [eof]) nextId).errors = []) :
    Derives .nearest .program nextId tokens (parse (tokens ++ [eof]) nextId).statements
      (parse (tokens ++ [eof]) nextId).nextId := by
  have hderives := parse_derives h
  rw [takeWhile_append_eof hts heof] at hderives
  obtain ⟨y, hy, -⟩ := derives_nearest hderives
  rw [parse_complete hts heof hy]
  exact hy

/-- **The tokens of two programs behind each other**, the first without its end. -/
theorem parse_joined {ts us : List Token} (hts : ∀ t ∈ tokens, t.kind ≠ .eof)
    (hmore : ∀ t ∈ more, t.kind ≠ .eof) (hend : end₁.kind = .eof) (heof : eof.kind = .eof)
    (hfirst : ts = tokens ++ [end₁]) (hsecond : us = more ++ [eof])
    (h : (parse ts nextId).errors = []) (hrest : (parse us (parse ts nextId).nextId).errors = []) :
    parse (tokens ++ us) nextId
      = ⟨(parse ts nextId).statements ++ (parse us (parse ts nextId).nextId).statements, [],
        (parse us (parse ts nextId).nextId).nextId⟩ := by
  subst hfirst hsecond
  rw [← List.append_assoc]
  refine parse_complete (fun t ht => ?_) heof
    (program_append (parse_nearest hts hend h) (parse_nearest hmore heof hrest))
  rcases List.mem_append.mp ht with ht | ht
  · exact hts t ht
  · exact hmore t ht

end Parse

end Lox.Syntax
