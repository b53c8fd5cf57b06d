import Lox.Scope.Resolve
import Lox.Proofs.Token.Scanner

/-!
# How the words of a source are spelled

A token that a scan finds is spelled as its kind wants it: `this` and `super` are the words of their
own kinds (`Token.Spelled`), so no name of a program is one of them.
-/

namespace Lox

/-- A name is neither `this` nor `super`, and tokens of these kinds are the words themselves. -/
structure Token.Spelled (t : Token) : Prop where
  name : t.kind = .identifier → t.lexeme ≠ thisName ∧ t.lexeme ≠ superName
  this : t.kind = .kwThis → t.lexeme = thisName
  super : t.kind = .kwSuper → t.lexeme = superName

namespace Token

theorem mem_keywords {w : String} {k : Kind} (h : Kind.ofWord w = k) (hk : k ≠ .identifier) :
    (w, k) ∈ keywords := by
  unfold Kind.ofWord at h
  cases hl : keywords.lookup w with
  | none =>
    rw [hl] at h
    exact absurd h.symm hk
  | some k' =>
    rw [hl] at h
    obtain ⟨before, after, hsplit, -⟩ := List.lookup_eq_some_iff.mp hl
    obtain rfl : k' = k := h
    rw [hsplit]
    exact List.mem_append_right _ List.mem_cons_self

/-- The kind of a word says which word it is. -/
theorem ofWord_spelled (w : String) (pos : Position) : Spelled ⟨Kind.ofWord w, w, pos⟩ where
  name h := by
    have hthis : Kind.ofWord thisName ≠ .identifier := by decide
    have hsuper : Kind.ofWord superName ≠ .identifier := by decide
    constructor
    · intro hw
      obtain rfl : w = thisName := hw
      exact hthis h
    · intro hw
      obtain rfl : w = superName := hw
      exact hsuper h
  this h := by
    have hmem := mem_keywords h (by decide)
    simpa [keywords, thisName] using hmem
  super h := by
    have hmem := mem_keywords h (by decide)
    simpa [keywords, superName] using hmem

/-- Tokens of all other kinds are spelled in any way. -/
theorem spelled_of_ne {t : Token} (h : t.kind ≠ .identifier ∧ t.kind ≠ .kwThis ∧ t.kind ≠ .kwSuper) :
    Spelled t := ⟨fun hk => absurd hk h.1, fun hk => absurd hk h.2.1, fun hk => absurd hk h.2.2⟩

/-- The kinds that are no words. -/
def Kind.isSign : Kind → Bool
  | .identifier | .kwThis | .kwSuper => false
  | _ => true

theorem signPiece_isSign {alone joined k : Kind} {n : Nat} {rest : List UInt8}
    (h : signPiece alone joined rest = (.token k, n)) (ha : alone.isSign = true)
    (hj : joined.isSign = true) : k.isSign = true := by
  unfold signPiece at h
  split at h <;> cases h <;> assumption

theorem slashPiece_isSign {k : Kind} {n : Nat} {rest : List UInt8}
    (h : slashPiece rest = (.token k, n)) : k.isSign = true := by
  unfold slashPiece at h
  split at h
  · cases h
  · split at h
    · split at h <;> cases h
    · exact signPiece_isSign h rfl rfl

theorem stringPiece_isSign {k : Kind} {n : Nat} {rest : List UInt8}
    (h : stringPiece rest = (.token k, n)) : k.isSign = true := by
  unfold stringPiece at h
  dsimp only at h
  split at h
  · cases h
  · cases h
    rfl

/-- **A piece is a sign or a whole word.** -/
theorem pieceAt_token {b : UInt8} {rest : List UInt8} {k : Kind} {n : Nat}
    (h : pieceAt b rest = (.token k, n)) :
    k.isSign = true ∨ startsWord b = true ∧ n = (rest.takeWhile inWord).length ∧
      k = Kind.ofWord (String.ofList (ascii (b :: rest.takeWhile inWord))) := by
  unfold pieceAt at h
  split at h
  case h_23 =>
    split at h
    · cases h
      exact .inl rfl
    · split at h
      · next hw =>
        cases h
        exact .inr ⟨hw, rfl, rfl⟩
      · unfold faultyPiece at h
        split at h <;> cases h
  case h_22 => exact .inl (stringPiece_isSign h)
  case h_21 => exact .inl (slashPiece_isSign h)
  all_goals
    first
    | exact .inl (signPiece_isSign h rfl rfl)
    | (cases h; exact .inl rfl)
    | cases h

/-- A piece that is a token is spelled as its kind wants it. -/
theorem spelled_of_mem_pieces {bytes : List UInt8} {piece : Piece} {k : Kind} (pos : Position)
    (h : piece ∈ pieces bytes) (hk : piece.mark = .token k) :
    Spelled ⟨k, Text.Utf8.lossy piece.bytes, pos⟩ := by
  fun_induction pieces bytes with
  | case1 => cases h
  | case2 b rest ih =>
    cases h with
    | tail _ h => exact ih h
    | head =>
      have hp : pieceAt b rest = (.token k, (pieceAt b rest).2) := Prod.ext hk rfl
      rcases pieceAt_token hp with hsign | ⟨hstart, hn, rfl⟩
      · refine spelled_of_ne ⟨?_, ?_, ?_⟩ <;> (rintro rfl; cases hsign)
      · have htake : rest.take (pieceAt b rest).2 = rest.takeWhile inWord := by
          rw [hn]
          exact (List.prefix_iff_eq_take.mp (List.takeWhile_prefix inWord)).symm
        have hascii : ∀ c ∈ b :: rest.takeWhile inWord, c < 0x80 := by
          rw [List.forall_mem_cons]
          refine ⟨lt_of_inWord (by rw [inWord, hstart, Bool.true_or]), fun c hc => ?_⟩
          exact lt_of_inWord (List.all_eq_true.mp List.all_takeWhile c hc)
        show Spelled ⟨_, Text.Utf8.lossy (b :: rest.take (pieceAt b rest).2), pos⟩
        rw [htake, lossy_ascii hascii]
        exact ofWord_spelled _ _

theorem mem_itemsFrom {ps : List Piece} {p : Position} {t : Token}
    (h : .ok t ∈ itemsFrom p ps) : t.kind = .eof ∨
      ∃ piece k pos, piece ∈ ps ∧ piece.mark = .token k ∧
        t = ⟨k, Text.Utf8.lossy piece.bytes, pos⟩ := by
  induction ps generalizing p with
  | nil =>
    obtain rfl : t = endAt p := by simpa [itemsFrom] using h
    exact .inl rfl
  | cons piece rest ih =>
    rw [itemsFrom] at h
    rcases List.mem_append.mp h with h | h
    · refine .inr ⟨piece, ?_⟩
      unfold Piece.item? at h
      cases hm : piece.mark with
      | token k =>
        rw [hm] at h
        refine ⟨k, after p piece.bytes, List.mem_cons_self, rfl, ?_⟩
        simpa using h
      | blank | fault f =>
        rw [hm] at h
        simp at h
    · rcases ih h with h | ⟨piece', k, pos, hp, hk, ht⟩
      · exact .inl h
      · exact .inr ⟨piece', k, pos, List.mem_cons_of_mem _ hp, hk, ht⟩

/-- **A token of a scan is a piece of the source**, or its end. -/
theorem piece_of_mem_scan {bytes : List UInt8} {t : Token} (h : t ∈ tokensOf (scan bytes)) :
    t.kind = .eof ∨ ∃ piece k pos, piece ∈ pieces bytes ∧ piece.mark = .token k ∧
      t = ⟨k, Text.Utf8.lossy piece.bytes, pos⟩ := by
  rw [scan_pieces] at h
  obtain ⟨item, hitem, ht⟩ := List.mem_filterMap.mp h
  cases item with
  | error e => cases ht
  | ok u =>
    cases ht
    exact mem_itemsFrom hitem

/-- **The tokens of a source are spelled as their kinds want it.** -/
theorem spelled_of_mem_scan {bytes : List UInt8} {t : Token} (h : t ∈ tokensOf (scan bytes)) :
    Spelled t := by
  rcases piece_of_mem_scan h with heof | ⟨piece, k, pos, hp, hk, rfl⟩
  · refine spelled_of_ne ⟨?_, ?_, ?_⟩ <;> (rw [heof]; decide)
  · exact spelled_of_mem_pieces pos hp hk

end Token

end Lox
