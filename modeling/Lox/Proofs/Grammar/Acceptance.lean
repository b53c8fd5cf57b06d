import Mathlib
import Lox.Proofs.Grammar.Completeness
import Lox.Proofs.Grammar.Nearest

/-!
# The parser accepts exactly its grammar

`parse_accepts_grammar`: for tokens with an end behind them, what parses without a complaint is what
the rules derive, as the tree that they give with each `else` at the nearest `if`.
-/

namespace Lox.Syntax

/-- **The parser accepts exactly its grammar and builds the tree that the grammar dictates.** -/
theorem parse_accepts_grammar (tokens : List Token) (eof : Token) (nextId : Nat)
    (hts : ∀ t ∈ tokens, t.kind ≠ .eof) (heof : eof.kind = .eof) :
    ((parse (tokens ++ [eof]) nextId).errors = [] ↔
      ∃ program last, Derives .any .program nextId tokens program last) ∧
    ((parse (tokens ++ [eof]) nextId).errors = [] →
      Derives .nearest .program nextId tokens (parse (tokens ++ [eof]) nextId).statements
        (parse (tokens ++ [eof]) nextId).nextId) ∧
    (∀ program last, Derives .nearest .program nextId tokens program last →
      program = (parse (tokens ++ [eof]) nextId).statements ∧
      last = (parse (tokens ++ [eof]) nextId).nextId) := by
  have hsound : (parse (tokens ++ [eof]) nextId).errors = [] →
      Derives .any .program nextId tokens (parse (tokens ++ [eof]) nextId).statements
        (parse (tokens ++ [eof]) nextId).nextId := fun h => by
    have hderives := parse_derives h
    rwa [takeWhile_append_eof hts heof] at hderives
  have hderived : ∀ program last, Derives .any .program nextId tokens program last →
      ∃ y, parse (tokens ++ [eof]) nextId = ⟨y, [], last⟩ ∧
        Derives .nearest .program nextId tokens y last := by
    intro program last h
    obtain ⟨y, hy, -⟩ := derives_nearest h
    exact ⟨y, parse_complete hts heof hy, hy⟩
  refine ⟨⟨fun h => ⟨_, _, hsound h⟩, ?_⟩, fun h => ?_, fun program last h => ?_⟩
  · intro hread
    obtain ⟨program, last, h⟩ := hread
    obtain ⟨y, hy, -⟩ := hderived program last h
    rw [hy]
  · obtain ⟨y, hy, hnearest⟩ := hderived _ _ (hsound h)
    rw [hy]
    rwa [hy] at hnearest
  · rw [parse_complete hts heof h]
    exact ⟨rfl, rfl⟩

/-- `if (a) if (b) c; else d;`, with the `else` at the second `if`. -/
theorem parse_accepts_dangling_else :
    let word (k : Token.Kind) (w : String) : Token := ⟨k, w, ⟨1, 0⟩⟩
    let name (w : String) : Token := word .identifier w
    let read (i : Nat) (w : String) : Expr := .read ⟨⟨i⟩, name w⟩
    let tokens : List Token := [word .kwIf "if", word .leftParen "(", name "a",
      word .rightParen ")", word .kwIf "if", word .leftParen "(", name "b", word .rightParen ")",
      name "c", word .semicolon ";", word .kwElse "else", name "d", word .semicolon ";"]
    (∀ t ∈ tokens, t.kind ≠ .eof) ∧ (word .eof "").kind = .eof ∧
    Derives .nearest .program 0 tokens
      [.branch (read 0 "a") (.branch (read 1 "b") (.expr (read 2 "c")) (some (.expr (read 3 "d"))))
        none] 4 := by
  intro word name read tokens
  have hts : ∀ t ∈ tokens, t.kind ≠ .eof := by decide
  refine ⟨hts, rfl, ?_⟩
  have hparse : parse (tokens ++ [word .eof ""]) 0 =
      ⟨[.branch (read 0 "a")
          (.branch (read 1 "b") (.expr (read 2 "c")) (some (.expr (read 3 "d")))) none],
        [], 4⟩ := by cbv
  have hderives := (parse_accepts_grammar tokens (word .eof "") 0 hts rfl).2.1 (by rw [hparse])
  rw [hparse] at hderives
  exact hderives

end Lox.Syntax
