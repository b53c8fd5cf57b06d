import Mathlib.Data.List.Infix
import Lox.Proofs.Token.Joining

/-!
# The items of a scan and the bytes of a source

Where the items of a scan stand in the source, said of the bytes and not of the pieces they are cut
into.

* `Span`: from one byte of a source up to another. `StandsAt` is what it means for a position to be
  that of the end of some bytes, and `Blank` is what may stand between two items.
* `Tiling`: pieces that lie next to each other from one byte of a source to its end, each with what
  is known of its bytes. The pieces of a source are one (`tiling_pieces`).
* `scan_tiles`: **the items of a scan lie apart and in order**, each with its own bytes and its
  place, and all that lies between them is blank. The end of the source comes behind them, once.
* `scan_tokens_apart`: no two tokens of a scan in front of its end have one position.
-/

namespace Lox.Token

/-! ## 1. Places in a source -/

/-- From one byte of a source up to another, which is the first one behind. -/
structure Span where
  first : Nat
  behind : Nat

/-- The bytes of a span. -/
def Span.bytes (s : Span) (source : List UInt8) : List UInt8 := source.extract s.first s.behind

/-- The byte `n` of a source is the first of a line. -/
def StartsLine (source : List UInt8) (n : Nat) : Prop :=
  n = 0 ∨ ∃ k, n = k + 1 ∧ source[k]? = some newline

/-- **A position is that of the end of the first `n` bytes.** The line is one more than the lines
    that end there, and the column counts the bytes from the start of the line on. -/
structure StandsAt (source : List UInt8) (n : Nat) (p : Position) : Prop where
  line : p.line = 1 + (source.take n).count newline
  column : ∃ first, first + p.column = n ∧ StartsLine source first ∧
    ∀ i, first ≤ i → i < n → source[i]? ≠ some newline

/-- White space or a comment, in front of the rest of a source. -/
inductive Blank : (bytes rest : List UInt8) → Prop where
  | space {b rest} (h : b ∈ [' '.toUInt8, '\t'.toUInt8, '\r'.toUInt8, newline]) : Blank [b] rest
  /-- A comment to the end of the line, which does not belong to it. -/
  | line {text rest} (h : newline ∉ text) (hrest : rest = [] ∨ rest.head? = some newline) :
      Blank ('/'.toUInt8 :: '/'.toUInt8 :: text) rest
  /-- A comment up to the first `*/` behind its start. -/
  | block {text rest} (h : ¬ ['*'.toUInt8, '/'.toUInt8] <:+: text ++ ['*'.toUInt8]) :
      Blank ('/'.toUInt8 :: '*'.toUInt8 :: (text ++ ['*'.toUInt8, '/'.toUInt8])) rest

/-- White space or a comment of a source. -/
def Span.IsBlank (s : Span) (source : List UInt8) : Prop :=
  Blank (s.bytes source) (source.drop s.behind)

/-- **An item stands at a span of a source.** A token shows its bytes, and it is no end of a
    source. -/
def Item.Stands (source : List UInt8) (s : Span) : Item → Prop
  | .ok t => t.kind ≠ .eof ∧ t.lexeme = Text.Utf8.lossy (s.bytes source) ∧
      StandsAt source s.behind t.pos
  | .error e => StandsAt source s.behind e.pos

/-- The position reached behind some bytes of a source. -/
theorem standsAt_after {source : List UInt8} {n : Nat} (h : n ≤ source.length) :
    StandsAt source n (after start (source.take n)) := by
  refine ⟨line_after start _, ?_⟩
  induction n with
  | zero => exact ⟨0, rfl, .inl rfl, fun i _ hi => absurd hi (Nat.not_lt_zero i)⟩
  | succ n ih =>
    obtain ⟨first, hcolumn, hstart, hline⟩ := ih (Nat.le_of_succ_le h)
    have hbyte : source[n]? = some source[n] := List.getElem?_eq_getElem h
    have htake : source.take (n + 1) = source.take n ++ [source[n]] := by
      rw [List.take_add_one, hbyte]
      rfl
    rw [htake, after_append]
    show ∃ first, first + (stepOver (after start (source.take n)) source[n]).column = n + 1 ∧ _
    unfold stepOver
    by_cases hn : source[n] = newline
    · rw [if_pos hn]
      refine ⟨n + 1, rfl, .inr ⟨n, rfl, by rw [hbyte, hn]⟩, fun i hi hlt => ?_⟩
      exact absurd hlt (Nat.not_lt.mpr hi)
    · rw [if_neg hn]
      refine ⟨first, congrArg (· + 1) hcolumn, hstart, fun i hi hlt => ?_⟩
      rcases Nat.lt_succ_iff_lt_or_eq.mp hlt with hlt | rfl
      · exact hline i hi hlt
      · rw [hbyte]
        exact fun he => hn (Option.some.inj he)

/-! ## 2. Blank pieces -/

/-- What stands in front of the first `*/`, and that there is none before. -/
theorem commentEnd?_first {rest : List UInt8} {n : Nat} (h : commentEnd? rest = some n) :
    ∃ text, rest.take n = text ++ ['*'.toUInt8, '/'.toUInt8] ∧
      ¬ ['*'.toUInt8, '/'.toUInt8] <:+: text ++ ['*'.toUInt8] := by
  induction rest generalizing n with
  | nil => cases h
  | cons b rest ih =>
    rw [commentEnd?] at h
    split at h
    · next hend =>
      cases h
      obtain ⟨rfl, hslash⟩ := hend
      obtain ⟨more, rfl⟩ := List.head?_eq_some_iff.mp hslash
      exact ⟨[], rfl, by decide⟩
    · next hend =>
      obtain ⟨k, hk, rfl⟩ := Option.map_eq_some_iff.mp h
      obtain ⟨text, htake, hfirst⟩ := ih hk
      refine ⟨b :: text, by rw [List.take_succ_cons, htake]; rfl, fun hinfix => ?_⟩
      rcases List.infix_cons_iff.mp hinfix with hprefix | hinfix
      · obtain ⟨rfl, hslash⟩ := List.cons_prefix_cons.mp hprefix
        refine hend ⟨rfl, ?_⟩
        -- the byte behind is the first of the text, or the star of the end
        have hfront : (text ++ ['*'.toUInt8]) <+: rest := by
          refine .trans ?_ (List.take_prefix k rest)
          rw [htake]
          exact ⟨['/'.toUInt8], by simp⟩
        obtain ⟨more, rfl⟩ := hslash.trans hfront
        rfl
      · exact hfirst hinfix

/-- A comment to the end of the line reaches up to it. -/
theorem lineComment_blank (rest : List UInt8) :
    Blank ('/'.toUInt8 :: '/'.toUInt8 :: rest.takeWhile (· ≠ newline))
      (rest.dropWhile (· ≠ newline)) := by
  refine .line (fun hmem => by simpa using List.mem_takeWhile_imp hmem) ?_
  by_cases hnil : rest.dropWhile (· ≠ newline) = []
  · exact .inl hnil
  · exact .inr (head?_dropWhile_ne hnil)

theorem slashPiece_blank {rest : List UInt8} {n : Nat} (h : slashPiece rest = (.blank, n)) :
    Blank ('/'.toUInt8 :: rest.take n) (rest.drop n) := by
  unfold slashPiece at h
  split at h
  · next hline =>
    obtain ⟨rest, rfl⟩ := List.head?_eq_some_iff.mp hline
    obtain rfl : _ = n := congrArg Prod.snd h
    rw [List.takeWhile_cons_of_pos (by decide), List.length_cons, List.take_succ_cons,
      List.drop_succ_cons, take_length_takeWhile, drop_length_takeWhile]
    exact lineComment_blank rest
  · split at h
    · next hstar =>
      obtain ⟨rest, rfl⟩ := List.head?_eq_some_iff.mp hstar
      rw [List.drop_one, List.tail_cons] at h
      split at h
      · next k hk =>
        cases h
        obtain ⟨text, htake, hfirst⟩ := commentEnd?_first hk
        rw [Nat.add_comm, List.take_succ_cons, htake]
        exact .block hfirst
      · cases h
    · unfold signPiece at h
      split at h <;> cases h

/-- **A blank piece is white space or a comment.** -/
theorem pieceAt_blank {b : UInt8} {rest : List UInt8} {n : Nat} (h : pieceAt b rest = (.blank, n)) :
    Blank (b :: rest.take n) (rest.drop n) := by
  have hbyte : ∀ c : Char, Char.ofUInt8 b = c → b = c.toUInt8 := fun c hc => by
    rw [← hc, toUInt8_ofUInt8]
  have hspace : ∀ c : Char, c ∈ [' ', '\t', '\r', '\n'] → Char.ofUInt8 b = c → n = 0 →
      Blank (b :: rest.take n) (rest.drop n) := by
    rintro c hc heq rfl
    refine .space ?_
    rw [hbyte c heq]
    exact List.mem_map_of_mem hc
  have hsign : ∀ alone joined, signPiece alone joined rest ≠ (.blank, n) := by
    intro alone joined hs
    unfold signPiece at hs
    split at hs <;> cases hs
  unfold pieceAt at h
  split at h
  case h_1 heq => exact hspace ' ' (by decide) heq (congrArg Prod.snd h).symm
  case h_2 heq => exact hspace '\r' (by decide) heq (congrArg Prod.snd h).symm
  case h_3 heq => exact hspace '\t' (by decide) heq (congrArg Prod.snd h).symm
  case h_4 heq => exact hspace '\n' (by decide) heq (congrArg Prod.snd h).symm
  case h_21 heq =>
    rw [hbyte '/' heq]
    exact slashPiece_blank h
  case h_22 =>
    unfold stringPiece at h
    dsimp only at h
    split at h <;> cases h
  case h_23 =>
    split at h
    · cases h
    · split at h
      · cases h
      · unfold faultyPiece at h
        split at h <;> cases h
  all_goals
    first
    | exact absurd h (hsign _ _)
    | cases h

/-! ## 3. A tiling -/

/-- **Pieces that lie next to each other**, from the byte `n` of a source to its end: each has its
    own bytes, and a blank one is white space or a comment. -/
inductive Tiling (source : List UInt8) : (n : Nat) → List Piece → Prop where
  | done : Tiling source source.length []
  | next {n k : Nat} {piece : Piece} {ps : List Piece} (hlt : n < k) (hle : k ≤ source.length)
      (hbytes : piece.bytes = (Span.mk n k).bytes source)
      (hblank : piece.mark = .blank → (Span.mk n k).IsBlank source)
      (hend : piece.mark ≠ .token .eof) (hrest : Tiling source k ps) :
      Tiling source n (piece :: ps)

/-- **The pieces of a source are a tiling of it.** -/
theorem tiling_pieces {source bytes : List UInt8} {n : Nat} (hn : n ≤ source.length)
    (h : source.drop n = bytes) : Tiling source n (pieces bytes) := by
  fun_induction pieces bytes generalizing n with
  | case1 =>
    obtain rfl : n = source.length := Nat.le_antisymm hn (List.drop_eq_nil_iff.mp h)
    exact .done
  | case2 b rest ih =>
    have hsize := pieceAt_le b rest
    have hlength : source.length - n = rest.length + 1 := by
      rw [← List.length_drop, h, List.length_cons]
    have hdrop : source.drop (n + ((pieceAt b rest).2 + 1)) = rest.drop (pieceAt b rest).2 := by
      rw [← List.drop_drop, h, List.drop_succ_cons]
    have hbytes : (Span.mk n (n + ((pieceAt b rest).2 + 1))).bytes source
        = b :: rest.take (pieceAt b rest).2 := by
      show source.extract n (n + ((pieceAt b rest).2 + 1)) = _
      rw [List.extract_eq_take_drop, h, Nat.add_sub_cancel_left, List.take_succ_cons]
    refine .next (by omega) (by omega) hbytes.symm (fun hm => ?_) (fun hm => ?_)
      (ih (by omega) hdrop)
    · show Blank ((Span.mk n (n + ((pieceAt b rest).2 + 1))).bytes source)
        (source.drop (n + ((pieceAt b rest).2 + 1)))
      rw [hbytes, hdrop]
      exact pieceAt_blank (Prod.ext hm rfl)
    · exact pieceAt_ne_eof (Prod.ext hm rfl) rfl

/-- The spans of the pieces that are not blank. -/
def spansFrom (n : Nat) : List Piece → List Span
  | [] => []
  | piece :: ps =>
    if piece.mark = .blank then spansFrom (n + piece.bytes.length) ps
    else ⟨n, n + piece.bytes.length⟩ :: spansFrom (n + piece.bytes.length) ps

variable {source : List UInt8} {n : Nat} {ps : List Piece}

/-- The span of a piece of a tiling is as long as the piece. -/
theorem length_of_bytes {k : Nat} {piece : Piece} (hlt : n < k) (hle : k ≤ source.length)
    (hbytes : piece.bytes = (Span.mk n k).bytes source) : n + piece.bytes.length = k := by
  have hlength : piece.bytes.length = min (k - n) (source.length - n) := by
    rw [hbytes]
    show (source.extract n k).length = _
    rw [List.extract_eq_take_drop, List.length_take, List.length_drop]
  omega

/-- **The spans of a tiling hold bytes**, and all of the source. -/
theorem Tiling.bounds (h : Tiling source n ps) :
    ∀ s ∈ spansFrom n ps, n ≤ s.first ∧ s.first < s.behind ∧ s.behind ≤ source.length := by
  induction h with
  | done => exact fun s hs => absurd hs List.not_mem_nil
  | @next n k piece ps hlt hle hbytes hblank hend hrest ih =>
    have hk := length_of_bytes hlt hle hbytes
    have hlater : ∀ s ∈ spansFrom k ps, n ≤ s.first ∧ s.first < s.behind ∧
        s.behind ≤ source.length := fun s hs =>
      ⟨Nat.le_trans (Nat.le_of_lt hlt) (ih s hs).1, (ih s hs).2⟩
    unfold spansFrom
    rw [hk]
    split
    · exact hlater
    · exact List.forall_mem_cons.mpr ⟨⟨Nat.le_refl n, hlt, hle⟩, hlater⟩

/-- **The spans of a tiling lie apart and in order.** -/
theorem Tiling.apart (h : Tiling source n ps) :
    (spansFrom n ps).Pairwise (·.behind ≤ ·.first) := by
  induction h with
  | done => exact .nil
  | @next n k piece ps hlt hle hbytes hblank hend hrest ih =>
    unfold spansFrom
    rw [length_of_bytes hlt hle hbytes]
    split
    · exact ih
    · exact List.pairwise_cons.mpr ⟨fun s hs => (hrest.bounds s hs).1, ih⟩

/-- **The items of a tiling stand at its spans.** -/
theorem Tiling.items_stand (h : Tiling source n ps) :
    List.Forall₂ (Item.Stands source) (spansFrom n ps)
      (itemsOf (after start (source.take n)) ps) := by
  induction h with
  | done => exact .nil
  | @next n k piece ps hlt hle hbytes hblank hend hrest ih =>
    have hreached : after (after start (source.take n)) piece.bytes
        = after start (source.take k) := by
      rw [← after_append, hbytes]
      show after start (source.take n ++ source.extract n k) = _
      rw [List.extract_eq_take_drop, ← List.take_add, Nat.add_sub_of_le (Nat.le_of_lt hlt)]
    have hpos : StandsAt source k (after start (source.take k)) := standsAt_after hle
    unfold spansFrom itemsOf
    rw [length_of_bytes hlt hle hbytes, hreached]
    unfold Piece.item?
    cases hm : piece.mark with
    | blank => simpa using ih
    | token kind =>
      have hkind : kind ≠ .eof := fun he => hend (by rw [hm, he])
      simpa using ⟨⟨hkind, congrArg Text.Utf8.lossy hbytes, hpos⟩, ih⟩
    | fault f => simpa using ⟨hpos, ih⟩

/-- Two spans without a byte in common. -/
def Span.Apart (s t : Span) : Prop := s.behind ≤ t.first ∨ t.behind ≤ s.first

/-- **A byte of a tiling is one of a span**, or of blanks apart from all spans. -/
theorem Tiling.covered (h : Tiling source n ps) :
    ∀ i, n ≤ i → i < source.length → (∃ s ∈ spansFrom n ps, s.first ≤ i ∧ i < s.behind) ∨
      ∃ gap : Span, n ≤ gap.first ∧ gap.first ≤ i ∧ i < gap.behind ∧ gap.behind ≤ source.length ∧
        gap.IsBlank source ∧ ∀ s ∈ spansFrom n ps, gap.Apart s := by
  induction h with
  | done => exact fun i hle hlt => absurd hlt (Nat.not_lt.mpr hle)
  | @next n k piece ps hlt hle hbytes hblank hend hrest ih =>
    intro i hni hi
    have hlater := fun s hs => (hrest.bounds s hs).1
    have hnk := Nat.le_of_lt hlt
    unfold spansFrom
    rw [length_of_bytes hlt hle hbytes]
    by_cases hik : i < k
    · by_cases hm : piece.mark = .blank
      · rw [if_pos hm]
        exact .inr ⟨⟨n, k⟩, Nat.le_refl n, hni, hik, hle, hblank hm, fun s hs => .inl (hlater s hs)⟩
      · rw [if_neg hm]
        exact .inl ⟨⟨n, k⟩, List.mem_cons_self, hni, hik⟩
    · rcases ih i (Nat.not_lt.mp hik) hi with
        ⟨s, hs, hin⟩ | ⟨gap, hfirst, hin, hlt, hle, hb, hapart⟩
      · refine .inl ⟨s, ?_, hin⟩
        split
        · exact hs
        · exact List.mem_cons_of_mem _ hs
      · refine .inr ⟨gap, Nat.le_trans hnk hfirst, hin, hlt, hle, hb, ?_⟩
        split
        · exact hapart
        · exact List.forall_mem_cons.mpr ⟨.inr hfirst, hapart⟩

/-! ## 4. The scan -/

/-- **The items of a scan lie apart and in order**, each with its own bytes and its place, and all
    that lies between them is blank. The end of the source comes behind them. The scanner reaches for
    no byte that is not there, gives the items call by call, and none ever after. -/
theorem scan_tiles (source : List UInt8) :
    Scanner.initial.items source.toArray = some (scan source) ∧
    (∀ n, Scanner.initial.answer? source.toArray n = some (scan source)[n]?) ∧
    ∃ (items : List Item) (last : Token) (spans : List Span),
      scan source = items ++ [.ok last] ∧
      last.kind = .eof ∧ last.lexeme = "" ∧ StandsAt source source.length last.pos ∧
      (∀ n, items.length < n → Scanner.initial.answer? source.toArray n = some none) ∧
      List.Forall₂ (Item.Stands source) spans items ∧
      (∀ s ∈ spans, s.first < s.behind ∧ s.behind ≤ source.length) ∧
      spans.Pairwise (·.behind ≤ ·.first) ∧
      ∀ i < source.length, (∃ s ∈ spans, s.first ≤ i ∧ i < s.behind) ∨
        ∃ gap : Span, gap.first ≤ i ∧ i < gap.behind ∧ gap.behind ≤ source.length ∧
          gap.IsBlank source ∧ ∀ s ∈ spans, gap.Apart s := by
  have htiling : Tiling source 0 (pieces source) := tiling_pieces (Nat.zero_le _) rfl
  have hlast : StandsAt source source.length (after start source) := by
    have h := standsAt_after (Nat.le_refl source.length)
    rwa [List.take_length] at h
  have hbegins := Scanner.behind_initial source.toArray
  have hitems : Scanner.initial.items source.toArray = some (scan source) := by
    rw [scan_pieces]
    exact Scanner.items_behind hbegins
  have hanswers : ∀ n, Scanner.initial.answer? source.toArray n = some (scan source)[n]? := fun n => by
    rw [scan_pieces]
    exact Scanner.answer?_behind hbegins n
  refine ⟨hitems, hanswers, itemsOf start (pieces source), endAt (after start source),
    spansFrom 0 (pieces source), scan_eq source, rfl, rfl, hlast, fun n hn => ?_,
    htiling.items_stand, fun s hs => (htiling.bounds s hs).2, htiling.apart, fun i hi => ?_⟩
  · have hend : (scan source).length ≤ n := by
      rw [scan_eq, List.length_append]
      exact hn
    rw [hanswers, List.getElem?_eq_none hend]
  · rcases htiling.covered i (Nat.zero_le i) hi with hin | ⟨gap, -, hgap⟩
    · exact .inl hin
    · exact .inr ⟨gap, hgap⟩

/-! ## 5. Places tell tokens apart -/

/-- A position is that of one byte of a source only. -/
theorem StandsAt.not_lt {source : List UInt8} {n m : Nat} {p : Position} (hn : StandsAt source n p)
    (hm : StandsAt source m p) : ¬ n < m := fun hlt => by
  obtain ⟨first, hcolumn, -, hline⟩ := hn.column
  obtain ⟨first', hcolumn', hstart, -⟩ := hm.column
  rcases hstart with rfl | ⟨k, rfl, hk⟩
  · omega
  · -- the newline in front of the line that ends at `m` is behind `n`, so it is one more
    have hnk : n ≤ k := Nat.not_lt.mp fun hkn => hline k (by omega) hkn hk
    have hbetween : newline ∈ (source.drop n).take (m - n) := by
      refine List.mem_of_getElem? (i := k - n) ?_
      rw [List.getElem?_take_of_lt (by omega), List.getElem?_drop, Nat.add_sub_of_le hnk, hk]
    have hcount := hn.line.symm.trans hm.line
    rw [← Nat.add_sub_of_le (Nat.le_of_lt hlt), List.take_add, List.count_append] at hcount
    have hpos := List.count_pos_iff.mpr hbetween
    omega

theorem StandsAt.inj {source : List UInt8} {n m : Nat} {p : Position} (hn : StandsAt source n p)
    (hm : StandsAt source m p) : n = m :=
  Nat.le_antisymm (Nat.not_lt.mp (hm.not_lt hn)) (Nat.not_lt.mp (hn.not_lt hm))

/-- The tokens among items that stand at spans in order have different positions. -/
theorem tokensOf_apart {source : List UInt8} {spans : List Span} {items : List Item}
    (h : List.Forall₂ (Item.Stands source) spans items)
    (hspans : ∀ s ∈ spans, s.first < s.behind) (hapart : spans.Pairwise (·.behind ≤ ·.first)) :
    (∀ t ∈ tokensOf items, t.kind ≠ .eof ∧ ∃ s ∈ spans, StandsAt source s.behind t.pos) ∧
      (tokensOf items).Pairwise (·.pos ≠ ·.pos) := by
  induction h with
  | nil => exact ⟨fun t ht => absurd ht List.not_mem_nil, .nil⟩
  | @cons s item spans items hitem _ ih =>
    rw [List.forall_mem_cons] at hspans
    rw [List.pairwise_cons] at hapart
    obtain ⟨hmem, hpairs⟩ := ih hspans.2 hapart.2
    have hlater : ∀ t ∈ tokensOf items, t.kind ≠ .eof ∧
        ∃ s' ∈ s :: spans, StandsAt source s'.behind t.pos := fun t ht => by
      obtain ⟨hk, s', hs', hpos⟩ := hmem t ht
      exact ⟨hk, s', List.mem_cons_of_mem _ hs', hpos⟩
    rcases item with e | t
    · exact ⟨hlater, hpairs⟩
    · obtain ⟨hk, -, hpos⟩ := hitem
      refine ⟨List.forall_mem_cons.mpr ⟨⟨hk, s, List.mem_cons_self, hpos⟩, hlater⟩,
        List.pairwise_cons.mpr ⟨fun t' ht' he => ?_, hpairs⟩⟩
      obtain ⟨-, s', hs', hpos'⟩ := hmem t' ht'
      have hle := hapart.1 s' hs'
      have hlt := hspans.2 s' hs'
      have hsame := hpos.inj (he ▸ hpos')
      omega

/-- **The tokens of a scan stand at different places.** -/
theorem scan_tokens_apart (source : List UInt8) :
    ((tokensOf (scan source)).takeWhile (·.kind ≠ .eof)).Pairwise (·.pos ≠ ·.pos) := by
  have htiling : Tiling source 0 (pieces source) := tiling_pieces (Nat.zero_le _) rfl
  have hitems : List.Forall₂ (Item.Stands source) (spansFrom 0 (pieces source))
      (itemsOf start (pieces source)) := htiling.items_stand
  obtain ⟨hmem, hpairs⟩ :=
    tokensOf_apart hitems (fun s hs => (htiling.bounds s hs).2.1) htiling.apart
  rw [tokensOf_scan, List.takeWhile_append_of_pos fun t ht => decide_eq_true (hmem t ht).1]
  simpa [endAt] using hpairs

end Lox.Token
