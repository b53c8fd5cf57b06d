import Lox.Proofs.Token.Pieces

/-!
# The scanner and the pieces of a source

The scanner raises its counters where it takes the end of a line, and nowhere else: in a string, in a
comment and between the lexemes. They always show the position that all bytes behind it make, so the
items it gives are the pieces of the source, placed.

* `Scanner.Behind`: where a scanner stands in a source, and that its counters show it.
* `Scanner.Takes`: what it is to take a piece; one lemma a kind of lexeme, put together in
  `scanToken_takes`.
* `Scanner.next_behind`: **asked for an item, a scanner gives the first of the pieces in front of it.**
* `items_behind`, `answer?_behind`, `scan_pieces`: **the scan of a source** is its pieces, placed, and
  the calls for items answer them one by one.
-/

namespace Lox.Token

/-! ## 1. ASCII bytes -/

/-- What holds of the 256 bytes one by one holds of all. -/
theorem forall_byte {P : UInt8 → Prop} (h : ∀ n : Fin 256, P (UInt8.ofNat n)) (b : UInt8) : P b := by
  have hb := h ⟨b.toNat, b.toNat_lt⟩
  rwa [UInt8.ofNat_toNat] at hb

theorem lt_of_inWord {b : UInt8} : inWord b = true → b < 0x80 :=
  forall_byte (P := fun b => inWord b = true → b < 0x80) (by decide +kernel) b

theorem ofNat_toNat (b : UInt8) : Char.ofNat b.toNat = Char.ofUInt8 b :=
  forall_byte (P := fun b => Char.ofNat b.toNat = Char.ofUInt8 b) (by decide +kernel) b

theorem toUInt8_ofUInt8 (b : UInt8) : (Char.ofUInt8 b).toUInt8 = b :=
  forall_byte (P := fun b => (Char.ofUInt8 b).toUInt8 = b) (by decide +kernel) b

theorem lossy_ascii {bytes : List UInt8} (h : ∀ b ∈ bytes, b < 0x80) :
    Text.Utf8.lossy bytes = String.ofList (ascii bytes) := by
  have hheads : (Text.Utf8.heads bytes).map Text.Utf8.Head.shown = ascii bytes := by
    unfold Text.Utf8.heads
    induction bytes with
    | nil => rfl
    | cons b rest ih =>
      rw [List.forall_mem_cons] at h
      have hb : Text.Utf8.headOf b rest = .char (Char.ofNat b.toNat) 1 := by
        unfold Text.Utf8.headOf
        rw [if_pos h.1]
      rw [Text.Utf8.headsAfter, hb, List.map_cons]
      show Char.ofNat b.toNat :: List.map _ (Text.Utf8.headsAfter 0 rest) = _
      rw [ih h.2, ofNat_toNat]
      rfl
  rw [Text.Utf8.lossy, hheads]

theorem lt_of_isDigit {b : UInt8} (h : isDigit b = true) : b < 0x80 :=
  lt_of_inWord (by rw [inWord, h, Bool.or_true])

/-- Digits, if there are any, behind a point. -/
def pointed (fraction : List UInt8) : List UInt8 :=
  if fraction = [] then [] else '.'.toUInt8 :: fraction

section Digits

variable {b : UInt8} {whole fraction : List UInt8}

theorem ascii_of_digits (hb : isDigit b = true) (hwhole : ∀ c ∈ whole, isDigit c = true)
    (hfraction : ∀ c ∈ fraction, isDigit c = true) : ∀ c ∈ b :: whole ++ pointed fraction, c < 0x80 := by
  rw [List.forall_mem_append, List.forall_mem_cons]
  refine ⟨⟨lt_of_isDigit hb, fun c hc => lt_of_isDigit (hwhole c hc)⟩, fun c hc => ?_⟩
  unfold pointed at hc
  split at hc
  · cases hc
  · rcases List.mem_cons.mp hc with rfl | hc
    · decide
    · exact lt_of_isDigit (hfraction c hc)

theorem toLower_of_isDigit {c : Char} (h : c.isDigit = true) : c.toLower = c := by
  rw [Char.isDigit, Bool.and_eq_true, decide_eq_true_eq, decide_eq_true_eq] at h
  exact dif_neg fun hupper => absurd (UInt32.le_trans hupper.1 h.2) (by decide)

theorem spanDigits_append {digits rest : List Char} (h : ∀ c ∈ digits, c.isDigit = true)
    (hrest : ∀ c ∈ rest.head?, c.isDigit = false) :
    Decimal.spanDigits (digits ++ rest) = (digits, rest) := by
  have htake : rest.takeWhile Char.isDigit = [] ∧ rest.dropWhile Char.isDigit = rest := by
    cases rest with
    | nil => exact ⟨rfl, rfl⟩
    | cons c rest => simp [hrest c rfl]
  rw [Decimal.spanDigits, List.takeWhile_append_of_pos h, List.dropWhile_append_of_pos h, htake.1,
    htake.2, List.append_nil]

theorem isDigit_of_mem_ascii {bytes : List UInt8} (h : ∀ c ∈ bytes, isDigit c = true) :
    ∀ c ∈ ascii bytes, c.isDigit = true := List.forall_mem_map.mpr h

/-- What starts with a digit is no word. -/
theorem lower_ne_word (hb : isDigit b = true) {more : List UInt8} {c : Char} {w : List Char}
    (hc : c.isDigit = false) :
    String.ofList ((ascii (b :: more)).map Char.toLower) ≠ String.ofList (c :: w) := by
  intro he
  have hhead : (Char.ofUInt8 b).isDigit = true := hb
  have hsame : (Char.ofUInt8 b).toLower = c := (List.cons.inj (String.ofList_injective he)).1
  rw [toLower_of_isDigit hhead] at hsame
  rw [← hsame, hhead] at hc
  cases hc

theorem magnitude?_digits (hb : isDigit b = true) (hwhole : ∀ c ∈ whole, isDigit c = true)
    (hfraction : ∀ c ∈ fraction, isDigit c = true) :
    Decimal.magnitude? (ascii (b :: whole ++ pointed fraction))
      = some (Decimal.ofDigits (ascii (b :: whole)) (ascii fraction)) := by
  have hfront := isDigit_of_mem_ascii (List.forall_mem_cons.mpr ⟨hb, hwhole⟩)
  have hback := isDigit_of_mem_ascii hfraction
  unfold Decimal.magnitude?
  split
  · next he => exact absurd he (lower_ne_word hb (by decide))
  · next he => exact absurd he (lower_ne_word hb (by decide))
  · next he => exact absurd he (lower_ne_word hb (by decide))
  · have hsplit : ascii (b :: whole ++ pointed fraction)
        = ascii (b :: whole) ++ ascii (pointed fraction) := List.map_append
    rw [hsplit]
    cases fraction with
    | nil =>
      rw [spanDigits_append hfront (by simp [pointed, ascii])]
      rfl
    | cons d more =>
      have hpoint : ascii (pointed (d :: more)) = '.' :: ascii (d :: more) := rfl
      have hspan : Decimal.spanDigits (ascii (d :: more) ++ []) = (ascii (d :: more), []) :=
        spanDigits_append hback (by simp)
      rw [List.append_nil] at hspan
      rw [hpoint, spanDigits_append hfront (by rintro c ⟨⟩; rfl)]
      simp only [hspan]
      rfl

/-- The number that the bytes of a number are read as. -/
theorem read?_digits (hb : isDigit b = true)
    (hwhole : ∀ c ∈ whole, isDigit c = true) (hfraction : ∀ c ∈ fraction, isDigit c = true) :
    Decimal.read? (ascii (b :: whole ++ pointed fraction))
      = some (Decimal.ofDigits (ascii (b :: whole)) (ascii fraction)) := by
  have hhead : (Char.ofUInt8 b).isDigit = true := hb
  rw [← magnitude?_digits hb hwhole hfraction]
  -- there is no sign in front
  unfold Decimal.read?
  split
  · next he =>
    rw [(List.cons.inj he).1] at hhead
    exact absurd hhead (by decide)
  · next he =>
    rw [(List.cons.inj he).1] at hhead
    exact absurd hhead (by decide)
  · rfl

end Digits

/-! ## 2. Loops, turn by turn -/

namespace Scanner

section Turns

variable (source : Array UInt8)

theorem advanceWhile_eq (p : UInt8 → Bool) (s : Scanner) :
    s.advanceWhile source p =
      if p (s.peek source) then (s.advance source).bind fun r => r.2.advanceWhile source p
      else some s := by
  rw [advanceWhile]
  split
  · split
    · next hnone => rw [hnone]; rfl
    · next b t hsome => rw [hsome]; rfl
  · rfl

theorem stringBody_eq (s : Scanner) :
    s.stringBody source =
      if s.curr < source.size ∧ s.peek source ≠ '"'.toUInt8 then
        (s.advance source).bind fun r =>
          stringBody source (if r.1 = Token.newline then r.2.newline else r.2)
      else some s := by
  rw [stringBody]
  split
  · split
    · next hnone => rw [hnone]; rfl
    · next b t hsome => rw [hsome]; rfl
  · rfl

theorem blockComment_eq (s : Scanner) :
    s.blockComment source =
      if s.curr < source.size then
        if s.peek source = '*'.toUInt8 ∧ s.peekNext source = '/'.toUInt8 then
          (s.advance source).bind fun r => (r.2.advance source).map fun r => (.blank, r.2)
        else
          (s.advance source).bind fun r =>
            blockComment source (if r.1 = Token.newline then r.2.newline else r.2)
      else some (.fault .unterminatedComment, s) := by
  rw [blockComment]
  split
  · split
    · cases s.advance source with
      | none => rfl
      | some r =>
        obtain ⟨b, t⟩ := r
        show (t.advance source >>= fun r => _) = (t.advance source).map _
        cases t.advance source <;> rfl
    · split
      · next hnone => rw [hnone]; rfl
      · next b t hsome => rw [hsome]; rfl
  · rfl

end Turns

end Scanner

/-! ## 3. The counters -/

theorem after_of_notMem (p : Position) {bytes : List UInt8} (h : newline ∉ bytes) :
    after p bytes = ⟨p.line, p.column + bytes.length⟩ := by
  induction bytes generalizing p with
  | nil => rfl
  | cons b rest ih =>
    rw [List.mem_cons, not_or] at h
    obtain ⟨hb, hrest⟩ := h
    show after (stepOver p b) rest = _
    rw [ih _ hrest, stepOver, if_neg (Ne.symm hb), List.length_cons]
    simp only [Position.mk.injEq, true_and]
    omega

namespace Scanner

/-- **A scanner stands behind some bytes of a source, and in front of others**: its counters show
    the position that all bytes behind it make. -/
structure Behind (source : Array UInt8) (taken rest : List UInt8) (s : Scanner) : Prop where
  source : source.toList = taken ++ rest
  curr : s.curr = taken.length
  line : s.line = (after Token.start taken).line
  column : s.lineStart + (after Token.start taken).column = s.curr

variable {source : Array UInt8} {taken rest : List UInt8} {s : Scanner}

theorem behind_initial (source : Array UInt8) : Behind source [] source.toList initial :=
  ⟨rfl, rfl, rfl, rfl⟩

namespace Behind

theorem position (h : Behind source taken rest s) : s.position = after Token.start taken := by
  have hcolumn : s.curr - s.lineStart = (after Token.start taken).column := by
    rw [← h.column, Nat.add_sub_cancel_left]
  rw [Scanner.position, h.line, hcolumn]

theorem size (h : Behind source taken rest s) : source.size = s.curr + rest.length := by
  rw [← Array.length_toList, h.source, List.length_append, h.curr]

theorem ahead (h : Behind source taken rest s) (n : Nat) : source[s.curr + n]? = rest[n]? := by
  rw [← Array.getElem?_toList, h.source, h.curr, List.getElem?_append_right (Nat.le_add_right _ _),
    Nat.add_sub_cancel_left]

theorem peek (h : Behind source taken rest s) : s.peek source = rest.head?.getD 0 := by
  rw [Scanner.peek, Array.getD_eq_getD_getElem?, List.head?_eq_getElem?]
  exact congrArg (·.getD 0) (h.ahead 0)

theorem peekNext (h : Behind source taken rest s) :
    s.peekNext source = (rest.drop 1).head?.getD 0 := by
  rw [Scanner.peekNext, Array.getD_eq_getD_getElem?, h.ahead 1, List.head?_drop]

theorem advance {b : UInt8} (h : Behind source taken (b :: rest) s) :
    s.advance source = some (b, { s with curr := s.curr + 1 }) := by
  have hb : source[s.curr]? = some b := h.ahead 0
  rw [Scanner.advance, hb]
  rfl

/-- Past bytes that end no line, the line stays what it is. -/
theorem pass (bytes : List UInt8) (h : Behind source taken (bytes ++ rest) s)
    (hline : Token.newline ∉ bytes) :
    Behind source (taken ++ bytes) rest { s with curr := s.curr + bytes.length } where
  source := by rw [h.source, List.append_assoc]
  curr := by rw [h.curr, List.length_append]
  line := by rw [after_append, after_of_notMem _ hline]; exact h.line
  column := by
    rw [after_append, after_of_notMem _ hline, ← h.column]
    exact (Nat.add_assoc _ _ _).symm

/-- Past the end of a line, a new one starts. -/
theorem passLine (h : Behind source taken (Token.newline :: rest) s) :
    Behind source (taken ++ [Token.newline]) rest { s with curr := s.curr + 1 }.newline where
  source := by rw [h.source, List.append_assoc]; rfl
  curr := by rw [List.length_append]; exact congrArg (· + 1) h.curr
  line := by rw [after_append]; exact congrArg (· + 1) h.line
  column := by rw [after_append]; rfl

/-- Past any byte, with the counters raised where a line ends. -/
theorem step {b : UInt8} (h : Behind source taken (b :: rest) s) :
    Behind source (taken ++ [b]) rest
      (if b = Token.newline then { s with curr := s.curr + 1 }.newline
        else { s with curr := s.curr + 1 }) := by
  by_cases hb : b = Token.newline
  · subst hb
    rw [if_pos rfl]
    exact h.passLine
  · rw [if_neg hb]
    exact h.pass [b] (by simpa using Ne.symm hb)

theorem slice {before bytes : List UInt8} (h : Behind source (before ++ bytes) rest s) :
    Scanner.slice source before.length s.curr = some bytes := by
  have hlength : s.curr = before.length + bytes.length := by rw [h.curr, List.length_append]
  have hsize := h.size
  have htext : (source.extract before.length s.curr).toList = bytes := by
    rw [Array.toList_extract, h.source, List.extract_eq_take_drop, hlength, List.append_assoc,
      List.drop_left, Nat.add_sub_cancel_left, List.take_left]
  rw [Scanner.slice, if_pos ⟨by omega, by omega⟩, htext]

end Behind

/-! ## 4. Taking bytes -/

/-- **A piece is taken**: it is said what it is, its start stays, and the scanner stands behind its
    bytes. -/
def Takes (source : Array UInt8) (taken rest : List UInt8) (s : Scanner) (piece : Mark × Nat)
    (result : Option (Mark × Scanner)) : Prop :=
  ∃ t, result = some (piece.1, t) ∧ t.start = s.start ∧
    Behind source (taken ++ rest.take piece.2) (rest.drop piece.2) t

theorem takes_of {t : Scanner} {m : Mark} {bytes more : List UInt8}
    {result : Option (Mark × Scanner)} (h : Behind source taken rest s) (hresult : result = some (m, t))
    (hstart : t.start = s.start) (hbehind : Behind source (taken ++ bytes) more t) :
    Takes source taken rest s (m, bytes.length) result := by
  have hrest : rest = bytes ++ more := by
    have hsource := h.source.symm.trans hbehind.source
    rwa [List.append_assoc, List.append_cancel_left_eq] at hsource
  refine ⟨t, hresult, hstart, ?_⟩
  rwa [hrest, List.take_left, List.drop_left]

theorem takes_nothing (h : Behind source taken rest s) (m : Mark) :
    Takes source taken rest s (m, 0) (some (m, s)) :=
  ⟨s, rfl, rfl, by simpa using h⟩

theorem takeIf_eq (h : Behind source taken rest s) (b : UInt8) :
    s.takeIf source b = if rest.head? = some b then some (true, { s with curr := s.curr + 1 })
      else some (false, s) := by
  have hsize := h.size
  cases rest with
  | nil => rw [takeIf, if_neg (by rw [hsize]; simp), if_neg (by simp)]
  | cons c rest =>
    rw [List.length_cons] at hsize
    have hcond : (s.curr < source.size ∧ s.peek source = b) ↔ (c :: rest).head? = some b := by
      rw [h.peek]
      simpa using fun _ => by omega
    rw [takeIf]
    simp only [hcond, h.advance, Option.map_some]

theorem sign_takes (h : Behind source taken rest s) (alone joined : Kind) :
    Takes source taken rest s (signPiece alone joined rest) (s.sign source alone joined) := by
  unfold sign signPiece
  rw [takeIf_eq h]
  by_cases hjoins : rest.head? = some '='.toUInt8
  · obtain ⟨rest, rfl⟩ := List.head?_eq_some_iff.mp hjoins
    rw [if_pos hjoins, if_pos hjoins]
    exact ⟨_, rfl, rfl, h.pass ['='.toUInt8] (by decide)⟩
  · rw [if_neg hjoins, if_neg hjoins]
    exact takes_nothing h _

theorem advanceWhile_takes {p : UInt8 → Bool} (hzero : p 0 = false) (hline : p Token.newline = false)
    (h : Behind source taken rest s) :
    ∃ t, s.advanceWhile source p = some t ∧ t.start = s.start ∧
      Behind source (taken ++ rest.takeWhile p) (rest.dropWhile p) t := by
  induction rest generalizing taken s with
  | nil =>
    rw [advanceWhile_eq, h.peek, if_neg (by simp [hzero])]
    exact ⟨s, rfl, rfl, by simpa using h⟩
  | cons b rest ih =>
    rw [advanceWhile_eq, h.peek, List.head?_cons, Option.getD_some]
    by_cases hb : p b = true
    · have hne : Token.newline ∉ [b] := by
        rw [List.mem_singleton]
        rintro rfl
        rw [hb] at hline
        cases hline
      obtain ⟨t, ht, hstart, hbehind⟩ := ih (h.pass [b] hne)
      rw [if_pos hb, h.advance, List.takeWhile_cons_of_pos hb, List.dropWhile_cons_of_pos hb]
      exact ⟨t, ht, hstart, by simpa using hbehind⟩
    · rw [if_neg hb, List.takeWhile_cons_of_neg hb, List.dropWhile_cons_of_neg hb]
      exact ⟨s, rfl, rfl, by simpa using h⟩

/-! ## 5. Comments -/

theorem findIdx?_newline (rest : List UInt8) :
    (rest.findIdx? (· == Token.newline)).getD rest.length
      = (rest.takeWhile (· ≠ Token.newline)).length := by
  induction rest with
  | nil => rfl
  | cons b rest ih =>
    by_cases hb : b = Token.newline
    · simp [List.findIdx?_cons, hb]
    · simp only [List.findIdx?_cons, beq_iff_eq, hb, if_false, List.length_cons,
        List.takeWhile_cons_of_pos (p := (· ≠ Token.newline)) (by simpa using hb), ← ih]
      cases rest.findIdx? (· == Token.newline) <;> rfl

theorem lineComment_takes (h : Behind source taken rest s) :
    Takes source taken rest s (.blank, (rest.takeWhile (· ≠ Token.newline)).length)
      (s.lineComment source) := by
  have hsize := h.size
  have hrest : (source.extract s.curr source.size).toList = rest := by
    rw [Array.toList_extract, h.source, List.extract_eq_take_drop, h.curr, List.drop_left,
      hsize, h.curr, Nat.add_sub_cancel_left, List.take_length]
  have hjump : s.lineComment source
      = some (.blank, { s with curr := s.curr + (rest.takeWhile (· ≠ Token.newline)).length }) := by
    rw [lineComment, if_pos (by omega), newlineFrom?, hrest, ← findIdx?_newline]
    cases rest.findIdx? (· == Token.newline) with
    | none => rw [hsize]; rfl
    | some n => rfl
  have hline : Token.newline ∉ rest.takeWhile (· ≠ Token.newline) := fun hmem => by
    simpa using List.all_eq_true.mp List.all_takeWhile _ hmem
  have hsplit : Behind source taken (rest.takeWhile (· ≠ Token.newline)
      ++ rest.dropWhile (· ≠ Token.newline)) s := by
    rwa [List.takeWhile_append_dropWhile]
  exact takes_of h hjump rfl (hsplit.pass _ hline)

/-- A comment is taken up to its end, or up to that of the source. -/
theorem blockComment_takes (h : Behind source taken rest s) :
    Takes source taken rest s
      ((commentEnd? rest).elim (.fault .unterminatedComment, rest.length) fun n => (.blank, n))
      (s.blockComment source) := by
  induction rest generalizing taken s with
  | nil =>
    have hsize := h.size
    rw [blockComment_eq, if_neg (by rw [hsize]; simp)]
    exact takes_nothing h _
  | cons b rest ih =>
    have hlt : s.curr < source.size := by
      rw [h.size, List.length_cons]
      omega
    have hcond : s.peekNext source = '/'.toUInt8 ↔ rest.head? = some '/'.toUInt8 := by
      rw [h.peekNext, List.drop_one, List.tail_cons]
      cases rest with
      | nil => decide
      | cons c rest => simp
    rw [blockComment_eq, if_pos hlt, h.peek, List.head?_cons, Option.getD_some, commentEnd?]
    simp only [hcond]
    by_cases hend : b = '*'.toUInt8 ∧ rest.head? = some '/'.toUInt8
    · rw [if_pos hend, if_pos hend]
      obtain ⟨rfl, hslash⟩ := hend
      obtain ⟨rest, rfl⟩ := List.head?_eq_some_iff.mp hslash
      have hstar := h.pass ['*'.toUInt8] (by decide)
      have hends : (s.advance source).bind (fun r =>
          (r.2.advance source).map fun r => (Mark.blank, r.2))
            = some (Mark.blank, { s with curr := s.curr + 2 }) := by
        rw [h.advance]
        exact congrArg (Option.map _) hstar.advance
      exact ⟨_, hends, rfl, h.pass ['*'.toUInt8, '/'.toUInt8] (by decide)⟩
    · rw [if_neg hend, if_neg hend, h.advance, Option.bind_some]
      obtain ⟨t, ht, hstart, hbehind⟩ := ih h.step
      refine ⟨t, ?_, ?_, ?_⟩
      · rw [ht]
        cases commentEnd? rest <;> rfl
      · rw [hstart]
        split <;> rfl
      · rw [List.append_assoc] at hbehind
        cases hn : commentEnd? rest with
        | none => rwa [hn] at hbehind
        | some n => rwa [hn] at hbehind

theorem slash_takes (h : Behind source taken rest s) :
    Takes source taken rest s (slashPiece rest) (s.slash source) := by
  unfold slash slashPiece
  rw [takeIf_eq h]
  by_cases hline : rest.head? = some '/'.toUInt8
  · obtain ⟨rest, rfl⟩ := List.head?_eq_some_iff.mp hline
    rw [if_pos hline, if_pos hline]
    obtain ⟨t, ht, hstart, hbehind⟩ :=
      lineComment_takes (h.pass ['/'.toUInt8] (by decide))
    refine ⟨t, ht, hstart, ?_⟩
    rw [List.takeWhile_cons_of_pos (by decide)]
    simpa using hbehind
  · rw [if_neg hline, if_neg hline]
    dsimp only [Option.bind_eq_bind, Option.bind_some]
    rw [if_neg Bool.false_ne_true, takeIf_eq h]
    by_cases hblock : rest.head? = some '*'.toUInt8
    · obtain ⟨rest, rfl⟩ := List.head?_eq_some_iff.mp hblock
      rw [if_pos hblock, if_pos hblock]
      obtain ⟨t, ht, hstart, hbehind⟩ :=
        blockComment_takes (h.pass ['*'.toUInt8] (by decide))
      rw [List.drop_one, List.tail_cons]
      cases hn : commentEnd? rest with
      | none =>
        rw [hn] at ht hbehind
        exact ⟨t, ht, hstart, by simpa using hbehind⟩
      | some n =>
        rw [hn] at ht hbehind
        refine ⟨t, ht, hstart, ?_⟩
        show Behind source (taken ++ List.take (1 + n) _) (List.drop (1 + n) _) t
        rw [Nat.add_comm, List.take_succ_cons, List.drop_succ_cons]
        simpa using hbehind
    · rw [if_neg hblock, if_neg hblock]
      exact sign_takes h _ _

/-! ## 6. Strings, numbers and words -/

theorem stringBody_takes (h : Behind source taken rest s) :
    ∃ t, s.stringBody source = some t ∧ t.start = s.start ∧
      Behind source (taken ++ rest.takeWhile (· ≠ '"'.toUInt8))
        (rest.dropWhile (· ≠ '"'.toUInt8)) t := by
  induction rest generalizing taken s with
  | nil =>
    have hsize := h.size
    rw [stringBody_eq, if_neg (by rw [hsize]; simp)]
    exact ⟨s, rfl, rfl, by simpa using h⟩
  | cons b rest ih =>
    have hlt : s.curr < source.size := by
      rw [h.size, List.length_cons]
      omega
    rw [stringBody_eq, h.peek, List.head?_cons, Option.getD_some]
    by_cases hb : b = '"'.toUInt8
    · rw [if_neg fun hopen => hopen.2 hb, List.takeWhile_cons_of_neg (by simpa using hb),
        List.dropWhile_cons_of_neg (by simpa using hb)]
      exact ⟨s, rfl, rfl, by simpa using h⟩
    · obtain ⟨t, ht, hstart, hbehind⟩ := ih h.step
      rw [if_pos ⟨hlt, hb⟩, h.advance, Option.bind_some,
        List.takeWhile_cons_of_pos (by simpa using hb), List.dropWhile_cons_of_pos (by simpa using hb)]
      refine ⟨t, ht, ?_, by simpa using hbehind⟩
      rw [hstart]
      split <;> rfl

theorem string_takes {before : List UInt8} (h : Behind source (before ++ ['"'.toUInt8]) rest s)
    (hstart : s.start = before.length) :
    Takes source (before ++ ['"'.toUInt8]) rest s (stringPiece rest) (s.string source) := by
  obtain ⟨t, ht, hkept, hbehind⟩ := stringBody_takes h
  have hsize := hbehind.size
  have hsplit := List.takeWhile_append_dropWhile (p := (· ≠ '"'.toUInt8)) (l := rest)
  have hquote : rest.dropWhile (· ≠ '"'.toUInt8) ≠ [] →
      (rest.dropWhile (· ≠ '"'.toUInt8)).head? = some '"'.toUInt8 := head?_dropWhile_ne
  unfold string stringPiece
  dsimp only
  rw [ht]
  generalize rest.takeWhile (· ≠ '"'.toUInt8) = inside at hbehind hsplit ⊢
  cases hrest : rest.dropWhile (· ≠ '"'.toUInt8) with
  | nil =>
    rw [hrest] at hbehind hsize hsplit
    rw [List.append_nil] at hsplit
    subst hsplit
    rw [if_pos rfl]
    exact ⟨t, if_pos hsize.le, hkept, by simpa using hbehind⟩
  | cons q more =>
    rw [hrest] at hbehind hsize hsplit hquote
    obtain rfl : q = '"'.toUInt8 := by simpa using hquote (List.cons_ne_nil _ _)
    subst hsplit
    rw [List.length_cons] at hsize
    have hinside : slice source (t.start + 1) t.curr = some inside := by
      have hslice := hbehind.slice
      rwa [List.length_append, ← hstart, ← hkept] at hslice
    have hpast := hbehind.pass ['"'.toUInt8] (by decide)
    rw [List.append_assoc] at hpast
    have hlength : (inside ++ ['"'.toUInt8]).length = inside.length + 1 := List.length_append
    rw [if_neg (by simp), ← hlength]
    refine takes_of (t := { t with curr := t.curr + 1 }) h ?_ hkept hpast
    show (if source.size ≤ t.curr then _ else _) = _
    rw [if_neg (by omega), hbehind.advance]
    show (slice source (t.start + 1) (t.curr + 1 - 1) >>= _) = _
    rw [Nat.add_sub_cancel, hinside]
    rfl

/-- The digits behind a point, at the front of some bytes. -/
def fractionOf (bytes : List UInt8) : List UInt8 :=
  if bytes.head? = some '.'.toUInt8 then (bytes.drop 1).takeWhile isDigit else []

theorem isDigit_of_mem_fractionOf (bytes : List UInt8) :
    ∀ c ∈ fractionOf bytes, isDigit c = true := by
  unfold fractionOf
  split
  · exact fun c hc => List.all_eq_true.mp List.all_takeWhile c hc
  · exact fun c hc => absurd hc List.not_mem_nil

theorem fraction_takes (h : Behind source taken rest s) :
    ∃ t, s.fraction source = some t ∧ t.start = s.start ∧
      Behind source (taken ++ pointed (fractionOf rest))
        (rest.drop (pointed (fractionOf rest)).length) t := by
  have hcond : (s.peek source = '.'.toUInt8 ∧ isDigit (s.peekNext source) = true)
      ↔ rest.head? = some '.'.toUInt8 ∧ (rest.drop 1).takeWhile isDigit ≠ [] := by
    rw [h.peek, h.peekNext]
    refine and_congr ?_ ?_
    · cases rest with
      | nil => decide
      | cons b rest => simp
    · cases rest.drop 1 with
      | nil => decide
      | cons b more => cases hb : isDigit b <;> simp [hb]
  unfold fraction fractionOf pointed
  simp only [hcond]
  by_cases hpoint : rest.head? = some '.'.toUInt8 ∧ (rest.drop 1).takeWhile isDigit ≠ []
  · obtain ⟨hhead, hdigits⟩ := hpoint
    rw [if_pos ⟨hhead, hdigits⟩, if_pos hhead, if_neg hdigits]
    obtain ⟨more, rfl⟩ := List.head?_eq_some_iff.mp hhead
    obtain ⟨t, ht, hstart, hbehind⟩ := advanceWhile_takes (p := isDigit) (by decide) (by decide)
      (h.pass ['.'.toUInt8] (by decide))
    refine ⟨t, ?_, hstart, ?_⟩
    · rw [h.advance]
      exact ht
    · rw [List.drop_one, List.tail_cons, List.length_cons, List.drop_succ_cons,
        drop_length_takeWhile]
      simpa using hbehind
  · have hnil : (if rest.head? = some '.'.toUInt8 then (rest.drop 1).takeWhile isDigit else [])
        = [] := by
      split
      · next hhead => exact not_not.mp fun hdigits => hpoint ⟨hhead, hdigits⟩
      · rfl
    rw [if_neg hpoint, hnil, if_pos rfl]
    exact ⟨s, rfl, rfl, by simpa using h⟩

theorem numberPiece_eq (b : UInt8) (rest : List UInt8) :
    numberPiece b rest
      = (.token (.number (Decimal.ofDigits (ascii (b :: rest.takeWhile isDigit))
          (ascii (fractionOf (rest.dropWhile isDigit))))),
        (rest.takeWhile isDigit ++ pointed (fractionOf (rest.dropWhile isDigit))).length) := by
  have hlength : ∀ fraction : List UInt8,
      (if fraction = [] then 0 else fraction.length + 1) = (pointed fraction).length := by
    intro fraction
    unfold pointed
    split <;> rfl
  unfold numberPiece
  dsimp only
  rw [← List.drop_drop, drop_length_takeWhile, hlength, List.length_append]
  rfl

theorem number_takes {b : UInt8} {before : List UInt8} (h : Behind source (before ++ [b]) rest s)
    (hstart : s.start = before.length) (hb : isDigit b = true) :
    Takes source (before ++ [b]) rest s (numberPiece b rest) (s.number source) := by
  obtain ⟨t, ht, hkept, hbehind⟩ :=
    advanceWhile_takes (p := isDigit) (by decide) (by decide) h
  obtain ⟨u, hu, hkept', hbehind'⟩ := fraction_takes hbehind
  have hwhole : ∀ c ∈ rest.takeWhile isDigit, isDigit c = true := fun c hc =>
    List.all_eq_true.mp List.all_takeWhile c hc
  have hslice : u.lexeme source
      = some (b :: rest.takeWhile isDigit ++ pointed (fractionOf (rest.dropWhile isDigit))) := by
    rw [List.append_assoc, List.append_assoc] at hbehind'
    rw [lexeme, hkept', hkept, hstart]
    exact hbehind'.slice
  have hvalue := read?_digits hb hwhole (isDigit_of_mem_fractionOf (rest.dropWhile isDigit))
  have hascii := ascii_of_digits hb hwhole
    (isDigit_of_mem_fractionOf (rest.dropWhile isDigit))
  rw [numberPiece_eq]
  rw [List.append_assoc] at hbehind'
  refine takes_of h ?_ (hkept'.trans hkept) hbehind'
  unfold number
  rw [ht]
  show (t.fraction source >>= _) = _
  rw [hu]
  show (u.lexeme source >>= _) = _
  rw [hslice]
  show some (Mark.token (.number ((Decimal.read? (Text.Utf8.lossy _).toList).getD 0)), u) = _
  rw [lossy_ascii hascii, String.toList_ofList, hvalue]
  rfl

theorem word_takes {b : UInt8} {before : List UInt8} (h : Behind source (before ++ [b]) rest s)
    (hstart : s.start = before.length) (hb : startsWord b = true) :
    Takes source (before ++ [b]) rest s (wordPiece b rest) (s.word source) := by
  obtain ⟨t, ht, hkept, hbehind⟩ :=
    advanceWhile_takes (p := inWord) (by decide) (by decide) h
  have hslice : t.lexeme source = some (b :: rest.takeWhile inWord) := by
    rw [List.append_assoc] at hbehind
    rw [lexeme, hkept, hstart]
    exact hbehind.slice
  have hascii : ∀ c ∈ b :: rest.takeWhile inWord, c < 0x80 := by
    refine List.forall_mem_cons.mpr ⟨lt_of_inWord (by rw [inWord, hb, Bool.true_or]), fun c hc => ?_⟩
    exact lt_of_inWord (List.all_eq_true.mp List.all_takeWhile c hc)
  refine takes_of h ?_ hkept hbehind
  unfold word
  rw [ht]
  show (t.lexeme source >>= _) = _
  rw [hslice]
  show some (Mark.token (Kind.ofWord (Text.Utf8.lossy _)), t) = _
  rw [lossy_ascii hascii]

/-! ## 7. Characters that start no token -/

open Text.Utf8 (headOf readTails lead? Lead)

theorem readTails_take (point seen more : Nat) (rest : List UInt8) :
    readTails point seen more (rest.take more) = readTails point seen more rest := by
  induction more generalizing point seen rest with
  | zero => rfl
  | succ more ih =>
    cases rest with
    | nil => rfl
    | cons b rest =>
      rw [List.take_succ_cons, readTails, readTails, ih]

theorem readTails_char {point seen more n : Nat} {rest : List UInt8} {c : Char}
    (h : readTails point seen more rest = .char c n) :
    n = seen + more ∧ more ≤ rest.length ∧ ∀ b ∈ rest.take more, 0x80 ≤ b := by
  induction more generalizing point seen rest with
  | zero =>
    cases h
    exact ⟨rfl, Nat.zero_le _, fun b hb => by simp at hb⟩
  | succ more ih =>
    cases rest with
    | nil => cases h
    | cons b rest =>
      rw [readTails] at h
      split at h
      · next hb =>
        obtain ⟨hn, hle, htails⟩ := ih h
        refine ⟨by omega, Nat.succ_le_succ hle, ?_⟩
        rw [List.take_succ_cons]
        exact List.forall_mem_cons.mpr ⟨hb.1, htails⟩
      · cases h

/-- The first byte of a character says how many there are. -/
theorem width_of_lead? {b : UInt8} {l : Lead} (h : lead? b = some l) :
    width b = 2 + l.more ∧ 0x80 ≤ l.low := by
  have hall := forall_byte (P := fun b => ∀ l ∈ lead? b, width b = 2 + l.more ∧ 0x80 ≤ l.low)
    (by decide +kernel) b
  exact hall l h

theorem width_pos (b : UInt8) : 0 < width b := by
  unfold width
  split
  · decide
  · split
    · decide
    · split <;> decide

theorem width_ascii {b : UInt8} : b < 0x80 → width b = 1 :=
  forall_byte (P := fun b => b < 0x80 → width b = 1) (by decide +kernel) b

/-- A character is read from as many bytes as its first one says, and from no others. -/
theorem headOf_take (b : UInt8) (rest : List UInt8) :
    headOf b (rest.take (width b - 1)) = headOf b rest := by
  unfold headOf
  split
  · rfl
  · cases hl : lead? b with
    | none => rfl
    | some l =>
      cases rest with
      | nil => rw [List.take_nil]
      | cons c rest =>
        have hwidth : width b - 1 = l.more + 1 := by
          have h := (width_of_lead? hl).1
          omega
        rw [hwidth, List.take_succ_cons]
        dsimp only
        rw [readTails_take]

theorem headOf_char {b : UInt8} {rest : List UInt8} {c : Char} {n : Nat}
    (h : headOf b rest = .char c n) :
    n = width b ∧ n ≤ rest.length + 1 ∧ ∀ x ∈ rest.take (n - 1), 0x80 ≤ x := by
  unfold headOf at h
  split at h
  · next hb =>
    cases h
    exact ⟨(width_ascii hb).symm, Nat.succ_le_succ (Nat.zero_le _), fun x hx => by simp at hx⟩
  · cases hl : lead? b with
    | none => simp [hl] at h
    | some l =>
      rw [hl] at h
      obtain ⟨hwidth, hlow⟩ := width_of_lead? hl
      cases rest with
      | nil => cases h
      | cons d rest =>
        dsimp only at h
        split at h
        · next hd =>
          obtain ⟨rfl, hle, htails⟩ := readTails_char h
          refine ⟨hwidth.symm, by rw [List.length_cons]; omega, ?_⟩
          have hsub : 2 + l.more - 1 = l.more + 1 := by omega
          rw [hsub, List.take_succ_cons]
          exact List.forall_mem_cons.mpr ⟨UInt8.le_trans hlow hd.1, htails⟩
        · cases h

theorem headsAfter_all {bytes : List UInt8} {n : Nat} (h : bytes.length ≤ n) :
    Text.Utf8.headsAfter n bytes = [] := by
  induction bytes generalizing n with
  | nil => cases n <;> rfl
  | cons b rest ih =>
    cases n with
    | zero => cases h
    | succ n => exact ih (Nat.le_of_succ_le_succ h)

/-- The bytes of one character, as many as its first one says, are a text if they are that
    character. -/
theorem decode?_width (b : UInt8) (rest : List UInt8) :
    Text.Utf8.decode? (b :: rest.take (width b - 1))
      = (headOf b rest).char?.map fun c => String.ofList [c] := by
  unfold Text.Utf8.decode? Text.Utf8.heads
  rw [Text.Utf8.headsAfter, headOf_take]
  cases hc : headOf b rest with
  | char c n =>
    obtain ⟨rfl, -, -⟩ := headOf_char hc
    rw [headsAfter_all (by rw [List.length_take]; exact Nat.min_le_left _ _)]
    rfl
  | malformed n | truncated n => rfl

theorem unexpected_takes {b : UInt8} {before : List UInt8}
    (h : Behind source (before ++ [b]) rest s) (hstart : s.start = before.length) :
    Takes source (before ++ [b]) rest s (faultyPiece b rest) (s.unexpected source b) := by
  have hcurr : s.curr = s.start + 1 := by
    rw [h.curr, List.length_append, hstart]
    rfl
  have hsize := h.size
  have hpos := width_pos b
  have hbehind : min (s.start + width b) source.size = s.start + (min (width b - 1) rest.length + 1) := by
    omega
  have hslice : slice source s.start (min (s.start + width b) source.size)
      = some (b :: rest.take (width b - 1)) := by
    rw [slice, if_pos ⟨by omega, by omega⟩, Array.toList_extract, h.source, hbehind,
      List.extract_eq_take_drop, hstart, List.append_assoc, List.drop_left, Nat.add_sub_cancel_left,
      List.singleton_append, List.take_succ_cons, ← List.take_eq_take_min]
  unfold unexpected faultyPiece
  dsimp only
  rw [hslice]
  dsimp only [Option.bind_eq_bind, Option.bind_some]
  rw [decode?_width]
  cases hc : headOf b rest with
  | char c n =>
    obtain ⟨rfl, hle, htails⟩ := headOf_char hc
    have hlength : (rest.take (width b - 1)).length = width b - 1 := by
      rw [List.length_take]
      omega
    have hline : Token.newline ∉ rest.take (width b - 1) := fun hmem =>
      absurd (htails _ hmem) (by decide)
    have hpast := (show Behind source _ (rest.take (width b - 1) ++ rest.drop (width b - 1)) s by
      rwa [List.take_append_drop]).pass _ hline
    have hjump : min (s.start + width b) source.size
        = s.curr + (rest.take (width b - 1)).length := by omega
    have hfirst : (String.ofList [c]).toList.head?.getD Text.Utf8.replacement = c := by
      rw [String.toList_ofList]
      rfl
    have htakes := takes_of (m := .fault (.unexpected c))
      (t := { s with curr := s.curr + (rest.take (width b - 1)).length }) h rfl rfl hpast
    rw [hlength] at htakes
    rw [hjump, hlength]
    show Takes source _ rest s (_, width b - 1) (some
      (.fault (.unexpected ((String.ofList [c]).toList.head?.getD Text.Utf8.replacement)), _))
    rw [hfirst]
    exact htakes
  | malformed n | truncated n => exact takes_nothing h _

/-! ## 8. One turn -/

/-- **A lexeme is taken as the piece it is.** -/
theorem scanToken_takes {b : UInt8} (h : Behind source taken (b :: rest) s)
    (hstart : s.start = s.curr) :
    Takes source (taken ++ [b]) rest s (pieceAt b rest) (s.scanToken source) := by
  have hbegins : s.start = taken.length := hstart.trans h.curr
  have hbyte : ∀ c : Char, Char.ofUInt8 b = c → b = c.toUInt8 := fun c hc => by
    rw [← hc, toUInt8_ofUInt8]
  have hpass : Char.ofUInt8 b ≠ '\n' →
      Behind source (taken ++ [b]) rest { s with curr := s.curr + 1 } := fun hne => by
    refine h.pass [b] ?_
    rw [List.mem_singleton]
    rintro rfl
    exact hne rfl
  unfold scanToken
  rw [h.advance]
  dsimp only [Option.bind_eq_bind, Option.bind_some]
  split
  case h_4 heq =>
    obtain rfl : b = Token.newline := hbyte '\n' heq
    exact takes_nothing h.passLine _
  case h_21 heq =>
    obtain rfl : b = '/'.toUInt8 := hbyte '/' heq
    exact slash_takes (hpass (by decide))
  case h_22 heq =>
    obtain rfl : b = '"'.toUInt8 := hbyte '"' heq
    exact string_takes (hpass (by decide)) hbegins
  case h_23 =>
    have hbehind := hpass ‹_›
    unfold pieceAt
    split
    case h_23 =>
      split
      · next hdigit => exact number_takes hbehind hbegins hdigit
      · split
        · next hword => exact word_takes hbehind hbegins hword
        · exact unexpected_takes hbehind hbegins
    all_goals exact absurd ‹Char.ofUInt8 b = _› ‹_›
  all_goals
    rename_i heq
    have hbehind := hpass (by rw [heq]; decide)
    unfold pieceAt
    rw [heq]
    first
    | exact takes_nothing hbehind _
    | exact sign_takes hbehind _ _

/-! ## 9. Items -/

/-- **Asked for an item, a scanner gives the first of the pieces in front of it.** Behind the last
    piece that is the end of the source, and behind that there is none. -/
theorem next_behind (h : Behind source taken rest s) :
    ∃ item t, s.next source = some (some item, t) ∧ s.curr < t.curr ∧
      ((itemsFrom (after Token.start taken) (pieces rest) = [item] ∧ source.size < t.curr) ∨
        ∃ taken' rest', Behind source taken' rest' t ∧ rest'.length < rest.length ∧
          itemsFrom (after Token.start taken) (pieces rest)
            = item :: itemsFrom (after Token.start taken') (pieces rest')) := by
  fun_induction pieces rest generalizing taken s with
  | case1 =>
    have hsize : source.size = s.curr := h.size
    rw [next, if_neg (by omega), if_pos hsize.symm, h.position]
    exact ⟨_, _, rfl, Nat.lt_succ_self _, .inl ⟨rfl, hsize ▸ Nat.lt_succ_self _⟩⟩
  | case2 b rest ih =>
    have hsize := h.size
    rw [List.length_cons] at hsize
    obtain ⟨t, ht, hkept, hbehind⟩ :=
      scanToken_takes (s := { s with start := s.curr }) ⟨h.source, h.curr, h.line, h.column⟩ rfl
    rw [List.append_assoc, List.singleton_append] at hbehind
    have hlexeme : t.lexeme source = some (b :: rest.take (pieceAt b rest).2) := by
      rw [lexeme, hkept, h.curr]
      exact hbehind.slice
    have hlt : s.curr < t.curr := by
      rw [hbehind.curr, h.curr, List.length_append, List.length_cons]
      omega
    have hshorter : (rest.drop (pieceAt b rest).2).length < (b :: rest).length := by
      rw [List.length_drop, List.length_cons]
      omega
    rw [next, if_neg (by omega), if_neg (by omega), ht, itemsFrom, ← after_append]
    cases hm : (pieceAt b rest).1 with
    | blank =>
      obtain ⟨item, u, hu, hfurther, hitems⟩ := ih hbehind
      refine ⟨item, u, (if_pos hlt).trans hu, hlt.trans hfurther, hitems.imp id ?_⟩
      rintro ⟨taken', rest', hbehind', hless, heq⟩
      exact ⟨taken', rest', hbehind', hless.trans hshorter, heq⟩
    | token k =>
      refine ⟨_, t, congrArg (Option.map _) hlexeme, hlt, .inr ⟨_, _, hbehind, hshorter, ?_⟩⟩
      rw [hbehind.position]
      rfl
    | fault f =>
      refine ⟨_, t, rfl, hlt, .inr ⟨_, _, hbehind, hshorter, ?_⟩⟩
      rw [hbehind.position]
      rfl

/-- Behind the end of the source there is no item. -/
theorem next_done (h : source.size < s.curr) : s.next source = some (none, s) := by
  rw [next, if_pos h]

/-- **The items that a scanner still gives** are the pieces in front of it, and the end of the
    source. -/
theorem items_behind {taken rest : List UInt8} {s : Scanner} (h : Behind source taken rest s) :
    s.items source = some (itemsFrom (after Token.start taken) (pieces rest)) := by
  obtain ⟨item, t, ht, hlt, hitems⟩ := next_behind h
  have hsize := h.size
  rw [items, ht]
  dsimp only
  rw [if_pos ⟨hlt, by omega⟩]
  rcases hitems with ⟨heq, hdone⟩ | ⟨taken', rest', hbehind, hless, heq⟩
  · rw [items, next_done hdone, heq]
    rfl
  · rw [items_behind hbehind, heq]
    rfl
termination_by rest.length

/-- What the call for an item with the number `n` answers, counted from zero, if all that it reaches
    for is there. -/
def answer? (source : Array UInt8) : (n : Nat) → Scanner → Option (Option Item)
  | 0, s => (s.next source).map Prod.fst
  | n + 1, s => (s.next source).bind fun r => answer? source n r.2

theorem answer?_done (h : source.size < s.curr) (n : Nat) : s.answer? source n = some none := by
  induction n with
  | zero => rw [answer?, next_done h]; rfl
  | succ n ih => rw [answer?, next_done h]; exact ih

/-- **Call by call a scanner gives the items in front of it**, and none ever after. -/
theorem answer?_behind (h : Behind source taken rest s) (n : Nat) :
    s.answer? source n = some (itemsFrom (after Token.start taken) (pieces rest))[n]? := by
  induction n generalizing taken rest s with
  | zero =>
    obtain ⟨item, t, ht, -, hitems⟩ := next_behind h
    rw [answer?, ht]
    rcases hitems with ⟨heq, -⟩ | ⟨taken', rest', -, -, heq⟩ <;> (rw [heq]; rfl)
  | succ n ih =>
    obtain ⟨item, t, ht, -, hitems⟩ := next_behind h
    rw [answer?, ht]
    rcases hitems with ⟨heq, hdone⟩ | ⟨taken', rest', hbehind, -, heq⟩
    · rw [heq]
      exact answer?_done hdone n
    · rw [heq]
      exact ih hbehind

end Scanner

/-- **The scan of a source** is its pieces, placed. -/
theorem scan_pieces (bytes : List UInt8) : scan bytes = itemsFrom start (pieces bytes) := by
  rw [scan, Scanner.items_behind (Scanner.behind_initial bytes.toArray)]
  rfl

end Lox.Token
