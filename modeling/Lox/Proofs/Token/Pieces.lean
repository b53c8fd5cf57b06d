import Mathlib.Data.List.Infix
import Lox.Token.Lexer

/-!
# The pieces of a source

A source is cut into pieces, front to back: a piece is blank (white space or a comment), a token, or
bytes at fault. The pieces hold every byte of the source once and in order (`flatten_pieces`), and
no piece is empty. An item of a scan is then a piece that is not blank, with the position of its
last byte, and the last item is the end of the source.

* `pieceAt` reads one piece: what it is and how many bytes follow its first (`pieceAt_le`: no more than
  there are);
* `pieces` reads them all, `itemsFrom` places them: a position is that of all bytes up to it (`after`).
-/

namespace Lox.Token

/-! ## 1. One piece -/

/-- A sign that an equals sign may follow. -/
def signPiece (alone joined : Kind) (rest : List UInt8) : Mark × Nat :=
  if rest.head? = some '='.toUInt8 then (.token joined, 1) else (.token alone, 0)

/-- How many bytes there are up to and with the first `*/`. -/
def commentEnd? : List UInt8 → Option Nat
  | [] => none
  | b :: rest =>
    if b = '*'.toUInt8 ∧ rest.head? = some '/'.toUInt8 then some 2
    else (commentEnd? rest).map (· + 1)

/-- A comment of either kind, or a slash. A comment to the end of the line leaves the line's end
    where it is. -/
def slashPiece (rest : List UInt8) : Mark × Nat :=
  if rest.head? = some '/'.toUInt8 then
    (.blank, (rest.takeWhile (· ≠ newline)).length)
  else if rest.head? = some '*'.toUInt8 then
    match commentEnd? (rest.drop 1) with
    | some n => (.blank, 1 + n)
    | none => (.fault .unterminatedComment, rest.length)
  else
    signPiece .slash .slashEqual rest

/-- A string, after its first quote. It may run over several lines. -/
def stringPiece (rest : List UInt8) : Mark × Nat :=
  let inside := rest.takeWhile (· ≠ '"'.toUInt8)
  if inside.length = rest.length then
    (.fault .unterminatedString, rest.length)
  else
    (.token (.string (Text.Utf8.lossy inside)), inside.length + 1)

/-- A number that starts with the digit `b`: a point belongs to it only with a digit behind. -/
def numberPiece (b : UInt8) (rest : List UInt8) : Mark × Nat :=
  let whole := rest.takeWhile isDigit
  let fraction :=
    if (rest.drop whole.length).head? = some '.'.toUInt8 then
      (rest.drop (whole.length + 1)).takeWhile isDigit
    else
      []
  let value := Decimal.ofDigits (ascii (b :: whole)) (ascii fraction)
  (.token (.number value), whole.length + (if fraction = [] then 0 else fraction.length + 1))

/-- A word that starts with the byte `b`. -/
def wordPiece (b : UInt8) (rest : List UInt8) : Mark × Nat :=
  let more := rest.takeWhile inWord
  (.token (Kind.ofWord (String.ofList (ascii (b :: more)))), more.length)

/-- A character that starts no token. -/
def faultyPiece (b : UInt8) (rest : List UInt8) : Mark × Nat :=
  match Text.Utf8.headOf b rest with
  | .char c n => (.fault (.unexpected c), n - 1)
  | .malformed _ | .truncated _ => (.fault (.unexpected Text.Utf8.replacement), 0)

/-- The piece that starts with the byte `b`, and how many bytes of `rest` belong to it. -/
def pieceAt (b : UInt8) (rest : List UInt8) : Mark × Nat :=
  match Char.ofUInt8 b with
  | ' ' | '\r' | '\t' | '\n' => (.blank, 0)
  | '(' => (.token .leftParen, 0)
  | ')' => (.token .rightParen, 0)
  | '\x7b' => (.token .leftBrace, 0)
  | '\x7d' => (.token .rightBrace, 0)
  | ',' => (.token .comma, 0)
  | '.' => (.token .dot, 0)
  | ';' => (.token .semicolon, 0)
  | '?' => (.token .question, 0)
  | ':' => (.token .colon, 0)
  | '-' => signPiece .minus .minusEqual rest
  | '+' => signPiece .plus .plusEqual rest
  | '*' => signPiece .star .starEqual rest
  | '!' => signPiece .bang .bangEqual rest
  | '=' => signPiece .equal .equalEqual rest
  | '<' => signPiece .less .lessEqual rest
  | '>' => signPiece .greater .greaterEqual rest
  | '/' => slashPiece rest
  | '"' => stringPiece rest
  | _ =>
    if isDigit b then numberPiece b rest
    else if startsWord b then wordPiece b rest
    else faultyPiece b rest

/-! ## 2. No piece reaches past the end -/

theorem length_takeWhile_le (p : UInt8 → Bool) (l : List UInt8) :
    (l.takeWhile p).length ≤ l.length := (List.takeWhile_sublist p).length_le

theorem take_length_takeWhile (p : UInt8 → Bool) (l : List UInt8) :
    l.take (l.takeWhile p).length = l.takeWhile p :=
  (List.prefix_iff_eq_take.mp (List.takeWhile_prefix p)).symm

theorem drop_length_takeWhile (p : UInt8 → Bool) (l : List UInt8) :
    l.drop (l.takeWhile p).length = l.dropWhile p := by
  have h : (l.takeWhile p ++ l.dropWhile p).drop (l.takeWhile p).length = l.dropWhile p :=
    List.drop_left
  rwa [List.takeWhile_append_dropWhile] at h

theorem head?_dropWhile_ne {b : UInt8} {rest : List UInt8} (h : rest.dropWhile (· ≠ b) ≠ []) :
    (rest.dropWhile (· ≠ b)).head? = some b := by
  have hhead := List.head_dropWhile_not (· ≠ b) h
  rw [List.head?_eq_some_head h]
  exact congrArg some (by simpa using hhead)

theorem commentEnd?_le {rest : List UInt8} {n : Nat} (h : commentEnd? rest = some n) :
    n ≤ rest.length := by
  induction rest generalizing n with
  | nil => cases h
  | cons b rest ih =>
    rw [commentEnd?] at h
    split at h
    · next hend =>
      cases h
      cases rest with
      | nil => cases hend.2
      | cons c rest => simp
    · obtain ⟨k, hk, rfl⟩ := Option.map_eq_some_iff.mp h
      exact Nat.succ_le_succ (ih hk)

theorem signPiece_le (alone joined : Kind) (rest : List UInt8) :
    (signPiece alone joined rest).2 ≤ rest.length := by
  unfold signPiece
  split
  · next h => exact List.length_pos_iff.mpr fun hnil => by rw [hnil] at h; cases h
  · exact Nat.zero_le _

theorem slashPiece_le (rest : List UInt8) : (slashPiece rest).2 ≤ rest.length := by
  unfold slashPiece
  split
  · exact length_takeWhile_le _ _
  · split
    · next hstar =>
      cases rest with
      | nil => cases hstar
      | cons c rest =>
        rw [List.drop_one, List.tail_cons]
        split
        · next n hn =>
          have hle := commentEnd?_le hn
          simp only [List.length_cons]
          omega
        · exact Nat.le_refl _
    · exact signPiece_le _ _ rest

theorem stringPiece_le (rest : List UInt8) : (stringPiece rest).2 ≤ rest.length := by
  have hle := length_takeWhile_le (· ≠ '"'.toUInt8) rest
  unfold stringPiece
  dsimp only
  split
  · exact Nat.le_refl _
  · next hclosed => exact Nat.lt_of_le_of_ne hle hclosed

theorem numberPiece_le (b : UInt8) (rest : List UInt8) : (numberPiece b rest).2 ≤ rest.length := by
  have hwhole := length_takeWhile_le isDigit rest
  have hfraction := length_takeWhile_le isDigit (rest.drop ((rest.takeWhile isDigit).length + 1))
  rw [List.length_drop] at hfraction
  unfold numberPiece
  dsimp only
  by_cases hpoint : (rest.drop (rest.takeWhile isDigit).length).head? = some '.'.toUInt8
  · rw [if_pos hpoint]
    have hlt : (rest.takeWhile isDigit).length < rest.length := by
      by_contra hge
      rw [List.drop_eq_nil_of_le (Nat.not_lt.mp hge)] at hpoint
      cases hpoint
    split <;> omega
  · rw [if_neg hpoint, if_pos rfl]
    exact hwhole

theorem readTails_size (point seen more : Nat) (rest : List UInt8) :
    (Text.Utf8.readTails point seen more rest).size ≤ seen + rest.length := by
  induction more generalizing point seen rest with
  | zero => simp [Text.Utf8.readTails, Text.Utf8.Head.size]
  | succ more ih =>
    cases rest with
    | nil => simp [Text.Utf8.readTails, Text.Utf8.Head.size]
    | cons b rest =>
      rw [Text.Utf8.readTails]
      split
      · have h := ih (point * 64 + (b.toNat - 0x80)) (seen + 1) rest
        rw [List.length_cons]
        omega
      · simp [Text.Utf8.Head.size]

/-- A character takes no more bytes than there are. -/
theorem headOf_size (b : UInt8) (rest : List UInt8) :
    (Text.Utf8.headOf b rest).size ≤ rest.length + 1 := by
  unfold Text.Utf8.headOf
  split
  · simp [Text.Utf8.Head.size]
  · split
    · simp [Text.Utf8.Head.size]
    · simp [Text.Utf8.Head.size]
    · split
      · refine (readTails_size _ _ _ _).trans ?_
        rw [List.length_cons]
        omega
      · simp [Text.Utf8.Head.size]

theorem faultyPiece_le (b : UInt8) (rest : List UInt8) : (faultyPiece b rest).2 ≤ rest.length := by
  have hsize := headOf_size b rest
  unfold faultyPiece
  split
  · next c n hc =>
    rw [hc] at hsize
    exact Nat.sub_le_of_le_add hsize
  all_goals exact Nat.zero_le _

/-- **No piece reaches past the end of the source.** -/
theorem pieceAt_le (b : UInt8) (rest : List UInt8) : (pieceAt b rest).2 ≤ rest.length := by
  unfold pieceAt
  split
  case h_21 => exact slashPiece_le rest
  case h_22 => exact stringPiece_le rest
  case h_23 =>
    split
    · exact numberPiece_le b rest
    · split
      · exact length_takeWhile_le _ _
      · exact faultyPiece_le b rest
  all_goals
    first
    | exact Nat.zero_le _
    | exact signPiece_le _ _ rest

/-! ## 3. All pieces -/

/-- A piece of a source: what it is, and its bytes. -/
structure Piece where
  mark : Mark
  bytes : List UInt8
deriving DecidableEq, Repr

/-- The pieces of a source, front to back. -/
def pieces : List UInt8 → List Piece
  | [] => []
  | b :: rest =>
    ⟨(pieceAt b rest).1, b :: rest.take (pieceAt b rest).2⟩ :: pieces (rest.drop (pieceAt b rest).2)
termination_by bytes => bytes.length
decreasing_by simp only [List.length_drop, List.length_cons]; omega

@[simp] theorem pieces_nil : pieces [] = [] := by rw [pieces]

theorem pieces_cons (b : UInt8) (rest : List UInt8) :
    pieces (b :: rest)
      = ⟨(pieceAt b rest).1, b :: rest.take (pieceAt b rest).2⟩
          :: pieces (rest.drop (pieceAt b rest).2) := by
  rw [pieces]

/-- **The pieces of a source are the source, cut.** -/
theorem flatten_pieces (bytes : List UInt8) :
    (pieces bytes).flatMap Piece.bytes = bytes := by
  fun_induction pieces bytes with
  | case1 => rfl
  | case2 b rest ih => simp [ih]

/-- No piece is empty. -/
theorem bytes_ne_nil_of_mem_pieces {bytes : List UInt8} {p : Piece} (h : p ∈ pieces bytes) :
    p.bytes ≠ [] := by
  fun_induction pieces bytes with
  | case1 => simp at h
  | case2 b rest ih =>
    rcases List.mem_cons.1 h with rfl | h
    · simp
    · exact ih h

/-! ## 4. Positions -/

/-- Where a source starts. -/
def start : Position := ⟨1, 0⟩

/-- The position after one more byte. -/
def stepOver (p : Position) (b : UInt8) : Position :=
  if b = newline then ⟨p.line + 1, 0⟩ else ⟨p.line, p.column + 1⟩

/-- The position after some more bytes. -/
def after (p : Position) (bytes : List UInt8) : Position := bytes.foldl stepOver p

theorem after_append (p : Position) (bytes more : List UInt8) :
    after p (bytes ++ more) = after (after p bytes) more := List.foldl_append

/-- The end of a source at a position. -/
def endAt (p : Position) : Token := ⟨.eof, "", p⟩

/-- A piece that ends at the position `p`, as an item; a blank one is none. -/
def Piece.item? (piece : Piece) (p : Position) : Option Item :=
  match piece.mark with
  | .blank => none
  | .token k => some (.ok ⟨k, Text.Utf8.lossy piece.bytes, p⟩)
  | .fault f => some (.error ⟨f, p⟩)

/-- The items of the pieces that start at the position `p`, and the end of the source. -/
def itemsFrom (p : Position) : List Piece → List Item
  | [] => [.ok (endAt p)]
  | piece :: rest =>
    let q := after p piece.bytes
    (piece.item? q).toList ++ itemsFrom q rest

end Lox.Token
