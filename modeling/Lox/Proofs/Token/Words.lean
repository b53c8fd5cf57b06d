import Lox.Proofs.Decimal.Doubles
import Lox.Proofs.Token.Respelling

/-!
# The words of tokens

What the kind of a token says about its word, and the word about its kind.

* `spellings`: the kinds that are spelled in one way only.
* `IsName`: the words of identifiers.
* `worded_of_mem_scan`: **the tokens of a source have the words of their kinds**, and its numbers are
  numbers.
-/

namespace Lox.Token

open Text.Utf8 (lossy)

/-! ## 1. Words -/

/-- The kinds that are spelled with signs, each with its spelling. -/
def signSpellings : List (Kind × String) :=
  [(.leftParen, "("), (.rightParen, ")"), (.leftBrace, "\x7b"), (.rightBrace, "\x7d"), (.comma, ","),
   (.dot, "."), (.minus, "-"), (.plus, "+"), (.semicolon, ";"), (.slash, "/"), (.star, "*"),
   (.question, "?"), (.colon, ":"), (.bang, "!"), (.bangEqual, "!="), (.equal, "="),
   (.equalEqual, "=="), (.greater, ">"), (.greaterEqual, ">="), (.less, "<"), (.lessEqual, "<="),
   (.plusEqual, "+="), (.minusEqual, "-="), (.starEqual, "*="), (.slashEqual, "/=")]

/-- **The kinds that are spelled in one way only.** -/
def spellings : List (Kind × String) := signSpellings ++ keywords.map fun w => (w.2, w.1)

/-- **A name**: a letter or an underscore, then letters, digits and underscores, and no keyword. -/
structure IsName (word : String) : Prop where
  head : ∃ c rest, word.toList = c :: rest ∧ (c.isAlpha || c == '_') = true
  inside : ∀ c ∈ word.toList, (c.isAlphanum || c == '_') = true
  identifier : Kind.ofWord word = .identifier

/-- What is known of the word of a token. -/
structure Worded (t : Token) : Prop where
  spelling : ∀ w, (t.kind, w) ∈ spellings → t.lexeme = w
  name : t.kind = .identifier → IsName t.lexeme
  number : ∀ x, t.kind = .number x → Decimal.parts x ≠ .nan

/-- A kind has one spelling. -/
theorem spelling_unique {k : Kind} {v w : String} (hv : (k, v) ∈ spellings) (hw : (k, w) ∈ spellings) :
    v = w := by
  have hnodup : (spellings.map Prod.fst).Nodup := by decide
  exact congrArg Prod.snd (List.inj_on_of_nodup_map hnodup hv hw rfl)

/-- A token that is spelled as its kind always is. -/
theorem worded_of_mem {k : Kind} {w : String} (pos : Position) (h : (k, w) ∈ spellings) :
    Worded ⟨k, w, pos⟩ where
  spelling v hv := spelling_unique h hv
  name hk := by
    obtain rfl : k = .identifier := hk
    simp [spellings, signSpellings, keywords] at h
  number x hk := by
    obtain rfl : k = .number x := hk
    simp [spellings, signSpellings, keywords] at h

theorem signPiece_worded {b : UInt8} {rest : List UInt8} {alone joined k : Kind} {n : Nat}
    (pos : Position) (h : signPiece alone joined rest = (.token k, n))
    (halone : (alone, lossy [b]) ∈ spellings)
    (hjoined : (joined, lossy [b, '='.toUInt8]) ∈ spellings) :
    Worded ⟨k, lossy (b :: rest.take n), pos⟩ := by
  unfold signPiece at h
  split at h
  case isTrue heq =>
    cases h
    obtain ⟨rest, rfl⟩ := List.head?_eq_some_iff.mp heq
    exact worded_of_mem pos hjoined
  case isFalse =>
    cases h
    exact worded_of_mem pos halone

theorem numberPiece_worded {b : UInt8} {rest : List UInt8} {k : Kind} {n : Nat} {w : String}
    (pos : Position) (h : numberPiece b rest = (.token k, n)) : Worded ⟨k, w, pos⟩ := by
  cases h
  refine ⟨fun w hw => ?_, (fun hk => nomatch hk), fun x hk => ?_⟩
  · simp [spellings, signSpellings, keywords] at hw
  · cases hk
    exact Decimal.parts_nearest _ _

theorem stringPiece_worded {rest : List UInt8} {k : Kind} {n : Nat} {w : String} (pos : Position)
    (h : stringPiece rest = (.token k, n)) : Worded ⟨k, w, pos⟩ := by
  obtain ⟨inside, -, rfl, -⟩ := stringPiece_cut h
  refine ⟨fun w hw => ?_, (fun hk => nomatch hk), fun x hk => nomatch hk⟩
  simp [spellings, signSpellings, keywords] at hw

/-- A word that is no keyword is a name. -/
theorem isName_ascii {b : UInt8} {bytes : List UInt8} (hstart : startsWord b = true)
    (hword : ∀ c ∈ b :: bytes, inWord c = true)
    (hk : Kind.ofWord (String.ofList (ascii (b :: bytes))) = .identifier) :
    IsName (String.ofList (ascii (b :: bytes))) where
  head := ⟨Char.ofUInt8 b, ascii bytes, String.toList_ofList, hstart⟩
  inside c hc := by
    rw [String.toList_ofList] at hc
    obtain ⟨d, hd, rfl⟩ := List.mem_map.mp hc
    rw [Char.isAlphanum, Bool.or_right_comm]
    exact hword d hd
  identifier := hk

theorem wordPiece_worded {b : UInt8} {rest : List UInt8} {k : Kind} {n : Nat} (pos : Position)
    (hstart : startsWord b = true) (h : wordPiece b rest = (.token k, n)) :
    Worded ⟨k, lossy (b :: rest.take n), pos⟩ := by
  cases h
  have htake : rest.take (rest.takeWhile inWord).length = rest.takeWhile inWord :=
    (List.prefix_iff_eq_take.mp (List.takeWhile_prefix inWord)).symm
  have hword : ∀ c ∈ b :: rest.takeWhile inWord, inWord c = true := by
    rw [List.forall_mem_cons]
    exact ⟨by rw [inWord, hstart, Bool.true_or], fun c hc => List.mem_takeWhile_imp hc⟩
  have hlossy : lossy (b :: rest.takeWhile inWord)
      = String.ofList (ascii (b :: rest.takeWhile inWord)) :=
    lossy_ascii fun c hc => lt_of_inWord (hword c hc)
  have hname := isName_ascii hstart hword
  rw [htake, hlossy]
  generalize String.ofList (ascii (b :: rest.takeWhile inWord)) = w at hname
  by_cases hk : Kind.ofWord w = .identifier
  · rw [hk]
    refine ⟨fun v hv => ?_, fun _ => hname hk, fun x hx => ?_⟩
    · simp [spellings, signSpellings, keywords] at hv
    · cases hx
  · refine worded_of_mem pos (List.mem_append_right _ ?_)
    exact List.mem_map.mpr ⟨_, mem_keywords rfl hk, rfl⟩

/-- **A piece that is a token has the word of its kind.** -/
theorem worded_of_piece {b : UInt8} {rest : List UInt8} {k : Kind} {n : Nat} (pos : Position)
    (h : pieceAt b rest = (.token k, n)) : Worded ⟨k, lossy (b :: rest.take n), pos⟩ := by
  unfold pieceAt at h
  split at h
  case h_23 =>
    split at h
    case isTrue hdigit => exact numberPiece_worded pos h
    case isFalse =>
      split at h
      case isTrue hstart => exact wordPiece_worded pos hstart h
      case isFalse =>
        unfold faultyPiece at h
        split at h <;> cases h
  case h_22 => exact stringPiece_worded pos h
  case h_21 heq =>
    obtain rfl : b = _ := by rw [← toUInt8_ofUInt8 b, heq]
    unfold slashPiece at h
    split at h
    · cases h
    · split at h
      · split at h <;> cases h
      · exact signPiece_worded pos h (by decide) (by decide)
  case h_1 | h_2 | h_3 | h_4 => cases h
  case h_14 heq | h_15 heq | h_16 heq | h_17 heq | h_18 heq | h_19 heq | h_20 heq =>
    obtain rfl : b = _ := by rw [← toUInt8_ofUInt8 b, heq]
    exact signPiece_worded pos h (by decide) (by decide)
  all_goals
    next heq =>
      obtain rfl : b = _ := by rw [← toUInt8_ofUInt8 b, heq]
      cases h
      show Worded ⟨_, lossy [_], pos⟩
      exact worded_of_mem pos (by decide)

theorem worded_of_mem_pieces {bytes : List UInt8} {piece : Piece} {k : Kind} (pos : Position)
    (h : piece ∈ pieces bytes) (hk : piece.mark = .token k) : Worded ⟨k, lossy piece.bytes, pos⟩ := by
  fun_induction pieces bytes with
  | case1 => cases h
  | case2 b rest ih =>
    rcases List.mem_cons.mp h with rfl | h
    · exact worded_of_piece pos (Prod.ext hk rfl)
    · exact ih h

/-- **The tokens of a source have the words of their kinds.** -/
theorem worded_of_mem_scan {bytes : List UInt8} {t : Token} (h : t ∈ tokensOf (scan bytes)) :
    Worded t := by
  rcases piece_of_mem_scan h with heof | ⟨piece, k, pos, hp, hk, rfl⟩
  · refine ⟨fun w hw => ?_, fun hk => ?_, fun x hk => ?_⟩
    · rw [heof] at hw
      simp [spellings, signSpellings, keywords] at hw
    · rw [heof] at hk
      cases hk
    · rw [heof] at hk
      cases hk
  · exact worded_of_mem_pieces pos hp hk

end Lox.Token
