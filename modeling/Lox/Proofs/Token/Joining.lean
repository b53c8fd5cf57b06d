import Mathlib
import Lox.Proofs.Token.Spelling

/-!
# Sources behind each other

The end of a line ends every piece but a string and a comment, so a source in which none of these
stays open can be scanned on its own, whatever stands on the lines behind it.

* `headOf_before`: an ASCII byte ends the character in front of it, whole or not.
* `pieceAt_ends`: no piece goes on over the end of a line, unless it would without.
* `scan_joined`: the scan of two sources, the second from a line of its own on.
* `scan_down`: the scan of a source further down.
* `scan_lines`: **the scan of two sources** is that of the first, without its end, and that of the
  second, further down.
-/

namespace Lox

/-- A position some lines further down. -/
def Position.down (k : Nat) (p : Position) : Position := ⟨p.line + k, p.column⟩

namespace Token

/-- A token some lines further down. -/
def down (k : Nat) (t : Token) : Token := { t with pos := t.pos.down k }

/-- A fault some lines further down. -/
def LexicalError.down (k : Nat) (e : LexicalError) : LexicalError := ⟨e.fault, e.pos.down k⟩

/-- An item of a scan some lines further down. -/
def Item.down (k : Nat) : Item → Item
  | .ok t => .ok (t.down k)
  | .error e => .error (e.down k)

/-! ## 1. Characters in front of an ASCII byte -/

open Text.Utf8 (headOf readTails lead? Lead)

theorem readTails_before {q : UInt8} (hq : q < 0x80) (point seen more : Nat)
    (rest tail : List UInt8) :
    (readTails point seen more (rest ++ q :: tail)).char? = (readTails point seen more rest).char? ∧
      (readTails point seen more (rest ++ q :: tail)).size
        = (readTails point seen more rest).size := by
  induction more generalizing point seen rest with
  | zero => exact ⟨rfl, rfl⟩
  | succ more ih =>
    cases rest with
    | nil =>
      have hout : ¬ (0x80 ≤ q ∧ q ≤ 0xBF) := fun h => absurd hq (UInt8.not_lt.mpr h.1)
      have hread : readTails point seen (more + 1) (q :: tail) = .malformed seen := by
        rw [readTails, if_neg hout]
      rw [List.nil_append, hread]
      exact ⟨rfl, rfl⟩
    | cons c rest =>
      rw [List.cons_append, readTails, readTails]
      split
      · exact ih _ _ rest
      · exact ⟨rfl, rfl⟩

theorem low_of_lead? {b : UInt8} {l : Lead} (h : lead? b = some l) :
    0x80 ≤ l.low.toNat ∧ 0x80 ≤ (l.bits * 64 + (l.low.toNat - 0x80)) * 64 ^ l.more := by
  have hall := forall_byte (P := fun b => ∀ l ∈ lead? b, 0x80 ≤ l.low.toNat ∧
    0x80 ≤ (l.bits * 64 + (l.low.toNat - 0x80)) * 64 ^ l.more) (by decide +kernel) b
  exact hall l h

/-- **An ASCII byte ends what is read in front of it**, be that a character or not. -/
theorem headOf_before {q : UInt8} (hq : q < 0x80) (b : UInt8) (rest tail : List UInt8) :
    (headOf b (rest ++ q :: tail)).char? = (headOf b rest).char? ∧
      (headOf b (rest ++ q :: tail)).size = (headOf b rest).size := by
  unfold headOf
  split
  · exact ⟨rfl, rfl⟩
  · cases hl : lead? b with
    | none => exact ⟨rfl, rfl⟩
    | some l =>
      cases rest with
      | nil =>
        have hout : ¬ (l.low ≤ q ∧ q ≤ l.high) := fun h => by
          have hlow := (low_of_lead? hl).1
          have hle := UInt8.le_iff_toNat_le.mp h.1
          have hlt : q.toNat < 0x80 := UInt8.lt_iff_toNat_lt.mp hq
          omega
        simp only [List.nil_append, if_neg hout]
        exact ⟨rfl, rfl⟩
      | cons c rest =>
        simp only [List.cons_append]
        split
        · exact readTails_before hq _ _ _ _ _
        · exact ⟨rfl, rfl⟩

/-! ## 2. Pieces -/

/-- Whether a fault takes all that is left of a source. -/
def LexicalFault.RunsOn (f : LexicalFault) : Prop :=
  f = .unterminatedString ∨ f = .unterminatedComment

/-- Whether a piece, read in front of something, ends in front of the end of a line. -/
def Ends (read : List UInt8 → Mark × Nat) : Prop :=
  ∀ rest more, (∀ f, (read rest).1 = .fault f → ¬ f.RunsOn) →
    read (rest ++ newline :: more) = read rest ∧ (read rest).2 ≤ rest.length

theorem takeWhile_newline {p : UInt8 → Bool} (hp : p newline = false) (rest more : List UInt8) :
    (rest ++ newline :: more).takeWhile p = rest.takeWhile p := by
  rw [List.takeWhile_append]
  split
  · next h =>
    rw [List.takeWhile_cons, hp]
    simpa using ((List.takeWhile_prefix p).eq_of_length h).symm
  · rfl

theorem head?_newline {b : UInt8} (hb : b ≠ newline) (rest more : List UInt8) :
    (rest ++ newline :: more).head? = some b ↔ rest.head? = some b := by
  cases rest with
  | nil => simpa using Ne.symm hb
  | cons c rest => rfl

theorem signPiece_ends (alone joined : Kind) : Ends (signPiece alone joined) := by
  intro rest more _
  unfold signPiece
  simp only [head?_newline (show '='.toUInt8 ≠ newline by decide)]
  refine ⟨trivial, ?_⟩
  split
  · next h =>
    cases rest with
    | nil => cases h
    | cons c rest => exact Nat.succ_le_succ (Nat.zero_le _)
  · exact Nat.zero_le _

theorem commentEnd?_ends {rest : List UInt8} {n : Nat} (h : commentEnd? rest = some n)
    (more : List UInt8) : commentEnd? (rest ++ newline :: more) = some n := by
  induction rest generalizing n with
  | nil => cases h
  | cons b rest ih =>
    rw [commentEnd?] at h
    rw [List.cons_append, commentEnd?]
    simp only [head?_newline (show '/'.toUInt8 ≠ newline by decide)]
    split at h
    · next hend =>
      cases h
      rw [if_pos hend]
    · next hend =>
      obtain ⟨k, hk, rfl⟩ := Option.map_eq_some_iff.mp h
      rw [if_neg hend, ih hk]
      rfl

theorem slashPiece_ends : Ends slashPiece := by
  intro rest more hclean
  unfold slashPiece at hclean ⊢
  simp only [head?_newline (show '/'.toUInt8 ≠ newline by decide),
    head?_newline (show '*'.toUInt8 ≠ newline by decide)]
  by_cases hline : rest.head? = some '/'.toUInt8
  · simp only [if_pos hline]
    rw [takeWhile_newline (by decide)]
    exact ⟨rfl, length_takeWhile_le _ _⟩
  · simp only [if_neg hline] at hclean ⊢
    by_cases hblock : rest.head? = some '*'.toUInt8
    · simp only [if_pos hblock] at hclean ⊢
      cases rest with
      | nil => cases hblock
      | cons c rest =>
        cases hend : commentEnd? rest with
        | none =>
          simp only [List.drop_succ_cons, List.drop_zero, hend] at hclean
          exact absurd (.inr rfl) (hclean _ rfl)
        | some n =>
          have hle := commentEnd?_le hend
          simp only [List.cons_append, List.drop_succ_cons, List.drop_zero, hend,
            commentEnd?_ends hend more]
          exact ⟨trivial, by rw [List.length_cons]; omega⟩
    · simp only [if_neg hblock] at hclean ⊢
      exact signPiece_ends .slash .slashEqual rest more hclean

theorem stringPiece_ends : Ends stringPiece := by
  intro rest more hclean
  unfold stringPiece at hclean ⊢
  dsimp only at hclean ⊢
  rw [List.takeWhile_append]
  by_cases hopen : (rest.takeWhile (· ≠ '"'.toUInt8)).length = rest.length
  · simp only [if_pos hopen] at hclean
    exact absurd (.inl rfl) (hclean _ rfl)
  · have hle := length_takeWhile_le (· ≠ '"'.toUInt8) rest
    have hlt : (rest.takeWhile (· ≠ '"'.toUInt8)).length < rest.length :=
      Nat.lt_of_le_of_ne hle hopen
    have hmore : (rest.takeWhile (· ≠ '"'.toUInt8)).length ≠ (rest ++ newline :: more).length := by
      rw [List.length_append]
      omega
    simp only [if_neg hopen, if_neg hmore]
    exact ⟨trivial, hlt⟩

theorem numberPiece_ends (b : UInt8) : Ends (numberPiece b) := by
  intro rest more _
  have hdigit : isDigit newline = false := by decide
  have hle := length_takeWhile_le isDigit rest
  unfold numberPiece
  dsimp only
  rw [takeWhile_newline hdigit, List.drop_append_of_le_length hle]
  simp only [head?_newline (show '.'.toUInt8 ≠ newline by decide)]
  by_cases hpoint : (rest.drop (rest.takeWhile isDigit).length).head? = some '.'.toUInt8
  · have hlt : (rest.takeWhile isDigit).length < rest.length := by
      by_contra hge
      rw [List.drop_eq_nil_of_le (Nat.not_lt.mp hge)] at hpoint
      cases hpoint
    simp only [if_pos hpoint]
    rw [List.drop_append_of_le_length hlt, takeWhile_newline hdigit]
    refine ⟨rfl, ?_⟩
    have hfraction := length_takeWhile_le isDigit (rest.drop ((rest.takeWhile isDigit).length + 1))
    rw [List.length_drop] at hfraction
    split <;> omega
  · simp only [if_neg hpoint]
    exact ⟨trivial, hle⟩

theorem wordPiece_ends (b : UInt8) : Ends (wordPiece b) := by
  intro rest more _
  unfold wordPiece
  dsimp only
  rw [takeWhile_newline (by decide)]
  exact ⟨rfl, length_takeWhile_le _ _⟩

/-- A character that starts no token, from what its bytes read as. -/
theorem faultyPiece_eq (b : UInt8) (rest : List UInt8) :
    faultyPiece b rest = match (headOf b rest).char? with
      | some c => (.fault (.unexpected c), (headOf b rest).size - 1)
      | none => (.fault (.unexpected Text.Utf8.replacement), 0) := by
  unfold faultyPiece
  cases headOf b rest <;> rfl

theorem faultyPiece_ends (b : UInt8) : Ends (faultyPiece b) := by
  intro rest more _
  obtain ⟨hchar, hsize⟩ := headOf_before (show newline < 0x80 by decide) b rest more
  have hle := headOf_size b rest
  rw [faultyPiece_eq, faultyPiece_eq, hchar, hsize]
  refine ⟨rfl, ?_⟩
  split
  · exact Nat.sub_le_of_le_add hle
  · exact Nat.zero_le _

/-- **No piece goes on over the end of a line**, unless it would without. -/
theorem pieceAt_ends (b : UInt8) : Ends (pieceAt b) := by
  have hone : ∀ m : Mark, Ends fun _ => (m, 0) := fun m rest more _ => ⟨rfl, Nat.zero_le _⟩
  intro rest more
  unfold pieceAt
  split
  case h_21 => exact slashPiece_ends rest more
  case h_22 => exact stringPiece_ends rest more
  case h_23 =>
    split
    · exact numberPiece_ends b rest more
    · split
      · exact wordPiece_ends b rest more
      · exact faultyPiece_ends b rest more
  all_goals
    first
    | exact hone _ rest more
    | exact signPiece_ends _ _ rest more

/-- The pieces of a source in which nothing stays open, and of what stands on the lines behind it. -/
theorem pieces_joined {bytes : List UInt8} (more : List UInt8)
    (h : ∀ piece ∈ pieces bytes, ∀ f, piece.mark = .fault f → ¬ f.RunsOn) :
    pieces (bytes ++ newline :: more) = pieces bytes ++ ⟨.blank, [newline]⟩ :: pieces more := by
  fun_induction pieces bytes with
  | case1 => exact pieces_cons newline more
  | case2 b rest ih =>
    obtain ⟨hsame, hle⟩ := pieceAt_ends b rest more (h _ List.mem_cons_self)
    rw [List.cons_append, pieces_cons, hsame, List.take_append_of_le_length hle,
      List.drop_append_of_le_length hle, ih fun piece hp => h piece (List.mem_cons_of_mem _ hp)]
    rfl

/-! ## 3. Items -/

/-- The items of the pieces that start at the position `p`, without an end. -/
def itemsOf (p : Position) : List Piece → List Item
  | [] => []
  | piece :: rest => (piece.item? (after p piece.bytes)).toList ++ itemsOf (after p piece.bytes) rest

theorem itemsFrom_append (p : Position) (ps qs : List Piece) :
    itemsFrom p (ps ++ qs) = itemsOf p ps ++ itemsFrom (after p (ps.flatMap Piece.bytes)) qs := by
  induction ps generalizing p with
  | nil => rfl
  | cons piece rest ih =>
    rw [List.cons_append, itemsFrom, itemsOf, List.flatMap_cons, after_append, ih, List.append_assoc]

/-- The items of a source, and its end. -/
theorem scan_eq (bytes : List UInt8) :
    scan bytes = itemsOf start (pieces bytes) ++ [.ok (endAt (after start bytes))] := by
  have h := itemsFrom_append start (pieces bytes) []
  rw [List.append_nil, flatten_pieces] at h
  exact (scan_pieces bytes).trans h

theorem tokensOf_scan (bytes : List UInt8) :
    tokensOf (scan bytes)
      = tokensOf (itemsOf start (pieces bytes)) ++ [endAt (after start bytes)] := by
  rw [scan_eq]
  exact List.filterMap_append

theorem errorsOf_scan (bytes : List UInt8) :
    errorsOf (scan bytes) = errorsOf (itemsOf start (pieces bytes)) := by
  rw [scan_eq]
  exact List.filterMap_append.trans (List.append_nil _)

/-- The faults of a scan are those of its pieces. -/
theorem fault_of_errorsOf {P : LexicalFault → Prop} {ps : List Piece} {p : Position}
    (h : ∀ e ∈ errorsOf (itemsFrom p ps), P e.fault) :
    ∀ piece ∈ ps, ∀ f, piece.mark = .fault f → P f := by
  induction ps generalizing p with
  | nil => exact fun _ hp => nomatch hp
  | cons piece rest ih =>
    unfold itemsFrom errorsOf at h
    rw [List.filterMap_append, List.forall_mem_append] at h
    refine List.forall_mem_cons.mpr ⟨fun f hf => ?_, ih h.2⟩
    exact h.1 ⟨f, after p piece.bytes⟩ (by simp [Piece.item?, hf])

theorem line_after (p : Position) (bytes : List UInt8) :
    (after p bytes).line = p.line + bytes.count newline := by
  induction bytes generalizing p with
  | nil => rfl
  | cons b rest ih =>
    show (after (stepOver p b) rest).line = _
    rw [ih, List.count_cons, stepOver]
    by_cases hb : b = newline
    · simp [hb]
      omega
    · simp [hb]

/-- No piece is the end of a source. -/
theorem pieceAt_ne_eof {b : UInt8} {rest : List UInt8} {k : Kind} {n : Nat}
    (h : pieceAt b rest = (.token k, n)) : k ≠ .eof := by
  have hsign : ∀ {alone joined : Kind}, signPiece alone joined rest = (.token k, n) →
      alone ≠ .eof → joined ≠ .eof → k ≠ .eof := by
    intro alone joined h ha hj
    unfold signPiece at h
    split at h <;> cases h <;> assumption
  unfold pieceAt at h
  split at h
  case h_21 =>
    unfold slashPiece at h
    split at h
    · cases h
    · split at h
      · split at h <;> cases h
      · exact hsign h (by decide) (by decide)
  case h_22 =>
    unfold stringPiece at h
    dsimp only at h
    split at h <;> cases h
    exact fun he => nomatch he
  case h_23 =>
    split at h
    · cases h
      exact fun he => nomatch he
    · split at h
      · cases h
        intro he
        have hmem := mem_keywords he (by decide)
        revert hmem
        unfold keywords
        simp
      · unfold faultyPiece at h
        split at h <;> cases h
  all_goals
    first
    | exact hsign h (by decide) (by decide)
    | (cases h; exact fun he => nomatch he)
    | cases h

/-- No item in front of the end is an end. -/
theorem tokensOf_itemsOf_ne_eof (p : Position) (bytes : List UInt8) :
    ∀ t ∈ tokensOf (itemsOf p (pieces bytes)), t.kind ≠ .eof := by
  fun_induction pieces bytes generalizing p with
  | case1 => exact fun _ ht => absurd ht List.not_mem_nil
  | case2 b rest ih =>
    intro t ht
    unfold itemsOf tokensOf at ht
    rw [List.filterMap_append] at ht
    rcases List.mem_append.mp ht with ht | ht
    · cases hk : (pieceAt b rest).1 with
      | token k =>
        obtain rfl : t = ⟨k, _, _⟩ := by simpa [Piece.item?, hk, Except.toOption] using ht
        exact pieceAt_ne_eof (Prod.ext hk rfl)
      | blank | fault f => simp [Piece.item?, hk, Except.toOption] at ht
    · exact ih _ t ht

/-! ## 4. Further down -/

theorem after_down (k : Nat) (p : Position) (bytes : List UInt8) :
    after (p.down k) bytes = (after p bytes).down k := by
  induction bytes generalizing p with
  | nil => rfl
  | cons b rest ih =>
    show after (stepOver (p.down k) b) rest = (after (stepOver p b) rest).down k
    have hstep : stepOver (p.down k) b = (stepOver p b).down k := by
      unfold stepOver
      split
      · simp only [Position.down, Nat.add_right_comm]
      · rfl
    rw [hstep, ih]

theorem itemsFrom_down (k : Nat) (p : Position) (ps : List Piece) :
    itemsFrom (p.down k) ps = (itemsFrom p ps).map (Item.down k) := by
  induction ps generalizing p with
  | nil => rfl
  | cons piece rest ih =>
    rw [itemsFrom, itemsFrom, List.map_append, after_down, ih]
    congr 1
    unfold Piece.item?
    cases piece.mark <;> rfl

theorem pieces_newlines (k : Nat) (bytes : List UInt8) :
    pieces (List.replicate k newline ++ bytes)
      = List.replicate k ⟨.blank, [newline]⟩ ++ pieces bytes := by
  induction k with
  | zero => rfl
  | succ k ih =>
    rw [List.replicate_succ, List.cons_append, pieces_cons, List.replicate_succ, List.cons_append]
    exact congrArg _ ih

/-- **The scan of a source that stands further down.** -/
theorem scan_down (k : Nat) (bytes : List UInt8) :
    scan (List.replicate k newline ++ bytes) = (scan bytes).map (Item.down k) := by
  have hblank : ∀ (k : Nat) (p : Position) (ps : List Piece), p.column = 0 →
      itemsFrom p (List.replicate k ⟨.blank, [newline]⟩ ++ ps) = itemsFrom (p.down k) ps := by
    intro k
    induction k with
    | zero => exact fun p ps _ => rfl
    | succ k ih =>
      intro p ps hp
      rw [List.replicate_succ, List.cons_append, itemsFrom]
      show itemsFrom (stepOver p newline) _ = _
      have hstep : stepOver p newline = p.down 1 := by
        unfold stepOver Position.down
        rw [if_pos rfl, hp]
      rw [hstep, ih (p.down 1) ps hp]
      simp only [Position.down, Nat.add_assoc, Nat.add_comm 1 k]
  rw [scan_pieces, scan_pieces, pieces_newlines, hblank k start _ rfl, itemsFrom_down]

/-- The scan of two sources, the second from a line of its own on. -/
theorem scan_joined {bytes : List UInt8} (more : List UInt8)
    (h : ∀ e ∈ errorsOf (scan bytes), ¬ e.fault.RunsOn) :
    scan (bytes ++ newline :: more) = itemsOf start (pieces bytes)
      ++ scan (List.replicate (bytes.count newline + 1) newline ++ more) := by
  have hstep : stepOver (after start bytes) newline = start.down (bytes.count newline + 1) := by
    unfold stepOver
    rw [if_pos rfl, line_after]
    rfl
  rw [scan_pieces] at h
  rw [scan_down, scan_pieces, scan_pieces, pieces_joined more (fault_of_errorsOf h), itemsFrom_append,
    flatten_pieces, ← itemsFrom_down, ← hstep]
  rfl

/-- **The scan of two sources**, the second on the lines behind the first. If no string and no comment
    of the first stays open, the items of the first without its end come first, and then the items of
    the second, as many lines further down as the first one has. -/
theorem scan_lines (bytes more : List UInt8)
    (h : ∀ e ∈ errorsOf (scan bytes),
      e.fault ≠ .unterminatedString ∧ e.fault ≠ .unterminatedComment) :
    scan bytes = (scan bytes).dropLast ++ [.ok (endAt (after start bytes))] ∧
      scan (bytes ++ newline :: more)
        = (scan bytes).dropLast ++ (scan more).map (Item.down (1 + bytes.count newline)) := by
  have hitems : (scan bytes).dropLast = itemsOf start (pieces bytes) := by
    rw [scan_eq, List.dropLast_concat]
  rw [hitems]
  refine ⟨scan_eq bytes, ?_⟩
  rw [scan_joined more fun e he hruns => hruns.elim (h e he).1 (h e he).2, scan_down, Nat.add_comm]

/-- A character that is cut off, and a comment up to the end of its line. -/
theorem scan_lines_cut :
    let bytes := ['<'.toUInt8, newline, 0xE2, 0x82, '/'.toUInt8, '/'.toUInt8, 0xE2]
    let more := ['='.toUInt8, newline, 0x82]
    (∀ e ∈ errorsOf (scan bytes),
      e.fault ≠ .unterminatedString ∧ e.fault ≠ .unterminatedComment) ∧
      scan (bytes ++ newline :: more)
        = (scan bytes).dropLast ++ (scan more).map (Item.down (1 + bytes.count newline)) := by
  intro bytes more
  have hclosed : ∀ e ∈ errorsOf (scan bytes),
      e.fault ≠ .unterminatedString ∧ e.fault ≠ .unterminatedComment := by
    have herrors : (errorsOf (scan bytes)).map LexicalError.fault
        = [.unexpected '\uFFFD', .unexpected '\uFFFD'] := by cbv
    intro e he
    have hmem := List.mem_map_of_mem (f := LexicalError.fault) he
    rw [herrors] at hmem
    simp only [List.mem_cons, List.not_mem_nil, or_false, or_self] at hmem
    rw [hmem]
    decide
  exact ⟨hclosed, (scan_lines bytes more hclosed).2⟩

theorem tokensOf_down (k : Nat) (items : List Item) :
    tokensOf (items.map (Item.down k)) = (tokensOf items).map (down k) := by
  unfold tokensOf
  rw [List.filterMap_map, List.map_filterMap]
  congr 1
  funext item
  cases item <;> rfl

theorem errorsOf_down (k : Nat) (items : List Item) :
    errorsOf (items.map (Item.down k)) = (errorsOf items).map (LexicalError.down k) := by
  unfold errorsOf
  rw [List.filterMap_map, List.map_filterMap]
  congr 1
  funext item
  cases item <;> rfl

/-! ## 5. Texts -/

theorem encode_append (a b : String) :
    Text.Utf8.encode (a ++ b) = Text.Utf8.encode a ++ Text.Utf8.encode b := by
  unfold Text.Utf8.encode
  rw [String.toList_append, List.flatMap_append]

/-- A text behind `k` empty lines. -/
def pushedDown (k : Nat) (text : String) : String := String.ofList (List.replicate k '\n') ++ text

theorem encode_pushedDown (k : Nat) (text : String) :
    Text.Utf8.encode (pushedDown k text) = List.replicate k newline ++ Text.Utf8.encode text := by
  unfold pushedDown
  rw [encode_append]
  congr 1
  unfold Text.Utf8.encode
  rw [String.toList_ofList]
  induction k with
  | zero => rfl
  | succ k ih =>
    rw [List.replicate_succ, List.flatMap_cons, ih]
    rfl

theorem encode_joined (a b : String) :
    Text.Utf8.encode (a ++ "\n" ++ b)
      = Text.Utf8.encode a ++ newline :: Text.Utf8.encode b := by
  rw [encode_append, encode_append, List.append_assoc]
  rfl

theorem ne_ofNat {b : UInt8} {x : Nat} (h : x % 256 ≠ b.toNat) : b ≠ UInt8.ofNat x := by
  intro he
  have hnat := congrArg UInt8.toNat he
  rw [UInt8.toNat_ofNat'] at hnat
  exact h hnat.symm

/-- The code point of the character of a number, which is zero for a number that is none. -/
theorem val_ofNat (n : Nat) : (Char.ofNat n).val.toNat = if n.isValidChar then n else 0 := by
  unfold Char.ofNat
  by_cases h : n.isValidChar
  · rw [dif_pos h, if_pos h]
    rfl
  · rw [dif_neg h, if_neg h]
    rfl

/-- Only an ASCII character is written with its byte. -/
theorem count_utf8EncodeChar {b : UInt8} (hb : b.toNat < 128) (c : Char) :
    (String.utf8EncodeChar c).count b = if c = Char.ofNat b.toNat then 1 else 0 := by
  have hval : c = Char.ofNat b.toNat ↔ c.val.toNat = b.toNat := by
    have hvalid : b.toNat.isValidChar := .inl (Nat.lt_trans hb (by decide))
    rw [← Char.val_inj, ← UInt32.toNat_inj, val_ofNat, if_pos hvalid]
  unfold String.utf8EncodeChar
  generalize c.val.toNat = v at hval
  dsimp only
  by_cases hone : v ≤ 127
  · rw [if_pos hone]
    by_cases hv : v = b.toNat
    · rw [if_pos (hval.mpr hv), hv, UInt8.ofNat_toNat]
      exact List.count_singleton_self
    · rw [if_neg fun h => hv (hval.mp h)]
      exact List.count_eq_zero.mpr fun h => ne_ofNat (by omega) (List.mem_singleton.mp h)
  · have hne : c ≠ Char.ofNat b.toNat := by
      intro h
      have hlow := hval.mp h
      omega
    rw [if_neg hone, if_neg hne]
    refine List.count_eq_zero.mpr fun h => ?_
    have hlead : ∀ x ∈ [v / 64 % 32 + 192, v / 4096 % 16 + 224, v / 262144 % 8 + 240,
        v / 4096 % 64 + 128, v / 64 % 64 + 128, v % 64 + 128], x % 256 ≠ b.toNat := by
      simp only [List.forall_mem_cons, List.not_mem_nil, false_implies, implies_true, and_true]
      omega
    split at h
    · simp only [List.mem_cons, List.not_mem_nil, or_false] at h
      rcases h with h | h <;> exact ne_ofNat (hlead _ (by simp)) h
    · split at h
      · simp only [List.mem_cons, List.not_mem_nil, or_false] at h
        rcases h with h | h | h <;> exact ne_ofNat (hlead _ (by simp)) h
      · simp only [List.mem_cons, List.not_mem_nil, or_false] at h
        rcases h with h | h | h | h <;> exact ne_ofNat (hlead _ (by simp)) h

/-- An ASCII character occurs in a text as often as its byte in the bytes of the text. -/
theorem count_encode {b : UInt8} (hb : b.toNat < 128) (text : String) :
    (Text.Utf8.encode text).count b = text.toList.count (Char.ofNat b.toNat) := by
  unfold Text.Utf8.encode
  induction text.toList with
  | nil => rfl
  | cons c rest ih =>
    rw [List.flatMap_cons, List.count_append, ih, count_utf8EncodeChar hb, List.count_cons,
      Nat.add_comm]
    simp only [beq_iff_eq]

/-- The lines of a text end where its bytes say so. -/
theorem count_newline_encode (text : String) :
    (Text.Utf8.encode text).count newline = text.toList.count '\n' := count_encode (by decide) text

end Token

end Lox
