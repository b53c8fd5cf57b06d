import Mathlib
import Lox.Proofs.Token.Tiling

/-!
# A source spelled again

The words of a source say which tokens it has: written out next to each other, with one space
between two of them, they are scanned as the tokens that they are the words of.

* `decode?_encode`, `lossy_encode`: a text is what its bytes read as, and `lossy_append`: bytes read on
  their own up to an ASCII byte.
* `Stable`: a word that is scanned as a token, whatever stands a space behind it. The word of every
  token is stable (`stable_of_piece`), also where it shows bytes that were none of a text.
* `scan_respelled`: **the words of a source determine its tokens.**
-/

namespace Lox.Token

open Text.Utf8 (Head headOf headsAfter heads lossy decode? encode readTails lead? Lead replacement)

deriving instance DecidableEq for Lead

/-! ## 1. Bytes of a text -/

theorem toNat_byte {n : Nat} (h : n < 256) : (UInt8.ofNat n).toNat = n :=
  UInt8.toNat_ofNat_of_lt' h

theorem lead?_two : ∀ n : Fin 32, 2 ≤ n.val →
    lead? (UInt8.ofNat (n + 192)) = some ⟨n, 0x80, 0xBF, 0⟩ := by decide +kernel

theorem lead?_three : ∀ n : Fin 16, lead? (UInt8.ofNat (n + 224)) =
    some ⟨n, if n.val = 0 then 0xA0 else 0x80, if n.val = 13 then 0x9F else 0xBF, 1⟩ := by
  decide +kernel

theorem lead?_four : ∀ n : Fin 5, lead? (UInt8.ofNat (n + 240)) =
    some ⟨n, if n.val = 0 then 0x90 else 0x80, if n.val = 4 then 0x8F else 0xBF, 2⟩ := by
  decide +kernel

theorem readTails_byte (n point seen more : Nat) (rest : List UInt8) :
    readTails point seen (more + 1) (UInt8.ofNat (n % 64 + 128) :: rest)
      = readTails (point * 64 + n % 64) (seen + 1) more rest := by
  have hlt : n % 64 < 64 := Nat.mod_lt _ (by decide)
  have hn : (UInt8.ofNat (n % 64 + 128)).toNat = n % 64 + 128 := toNat_byte (by omega)
  rw [readTails, if_pos, hn, Nat.add_sub_cancel]
  rw [UInt8.le_iff_toNat_le, UInt8.le_iff_toNat_le, hn]
  exact ⟨Nat.le_add_left _ _, Nat.add_le_add_right (Nat.le_of_lt_succ hlt) 128⟩

theorem le_of_lead? {b : UInt8} {l : Lead} (h : lead? b = some l) : ¬ b < 0x80 := by
  intro hb
  unfold lead? at h
  rw [if_pos] at h
  · cases h
  · rw [UInt8.lt_iff_toNat_lt] at *
    exact Nat.lt_trans hb (by decide)

theorem headOf_lead {b : UInt8} {l : Lead} {n : Nat} (rest : List UInt8) (hb : lead? b = some l)
    (hlow : l.low.toNat ≤ n % 64 + 128) (hhigh : n % 64 + 128 ≤ l.high.toNat) :
    headOf b (UInt8.ofNat (n % 64 + 128) :: rest)
      = readTails (l.bits * 64 + n % 64) 2 l.more rest := by
  have hlt : n % 64 < 64 := Nat.mod_lt _ (by decide)
  have hn : (UInt8.ofNat (n % 64 + 128)).toNat = n % 64 + 128 := toNat_byte (by omega)
  unfold headOf
  rw [if_neg (le_of_lead? hb), hb]
  dsimp only
  rw [if_pos, hn, Nat.add_sub_cancel]
  rw [UInt8.le_iff_toNat_le, UInt8.le_iff_toNat_le, hn]
  exact ⟨hlow, hhigh⟩

theorem headOf_one {v : Nat} (hv : v ≤ 0x7F) (more : List UInt8) :
    headOf (UInt8.ofNat v) more = .char (Char.ofNat v) 1 := by
  have hn : (UInt8.ofNat v).toNat = v := toNat_byte (by omega)
  unfold headOf
  rw [if_pos, hn]
  rw [UInt8.lt_iff_toNat_lt, hn]
  exact Nat.lt_succ_of_le hv

theorem headOf_two {v : Nat} (hlow : 0x7F < v) (hhigh : v ≤ 0x7FF) (more : List UInt8) :
    headOf (UInt8.ofNat (v / 64 % 32 + 192)) (UInt8.ofNat (v % 64 + 128) :: more)
      = .char (Char.ofNat v) 2 := by
  have hpoint : v / 64 % 32 * 64 + v % 64 = v := by omega
  have hlead := lead?_two ⟨v / 64 % 32, by omega⟩ (by show 2 ≤ v / 64 % 32; omega)
  rw [headOf_lead more hlead (Nat.le_add_left _ _) (by show _ ≤ 0xBF; omega), readTails, hpoint]

theorem headOf_three {v : Nat} (hlow : 0x7FF < v) (hhigh : v ≤ 0xFFFF)
    (hvalid : v < 0xD800 ∨ 0xDFFF < v) (more : List UInt8) :
    headOf (UInt8.ofNat (v / 4096 % 16 + 224))
        (UInt8.ofNat (v / 64 % 64 + 128) :: UInt8.ofNat (v % 64 + 128) :: more)
      = .char (Char.ofNat v) 3 := by
  have hpoint : (v / 4096 % 16 * 64 + v / 64 % 64) * 64 + v % 64 = v := by omega
  have hlead := lead?_three ⟨v / 4096 % 16, by omega⟩
  rw [headOf_lead _ hlead, readTails_byte, readTails, hpoint]
  -- the second byte: past the overlong forms, and in front of the surrogates
  · dsimp only
    split
    · show 0xA0 ≤ _
      omega
    · exact Nat.le_add_left _ _
  · dsimp only
    split
    · show _ ≤ 0x9F
      omega
    · show _ ≤ 0xBF
      omega

theorem headOf_four {v : Nat} (hlow : 0xFFFF < v) (hhigh : v < 0x110000) (more : List UInt8) :
    headOf (UInt8.ofNat (v / 262144 % 8 + 240)) (UInt8.ofNat (v / 4096 % 64 + 128) ::
        UInt8.ofNat (v / 64 % 64 + 128) :: UInt8.ofNat (v % 64 + 128) :: more)
      = .char (Char.ofNat v) 4 := by
  have hpoint : ((v / 262144 % 8 * 64 + v / 4096 % 64) * 64 + v / 64 % 64) * 64 + v % 64 = v := by
    omega
  have hlead := lead?_four ⟨v / 262144 % 8, by omega⟩
  rw [headOf_lead _ hlead, readTails_byte, readTails_byte, readTails, hpoint]
  -- the second byte: past the overlong forms, and up to the last code point
  · dsimp only
    split
    · show 0x90 ≤ _
      omega
    · exact Nat.le_add_left _ _
  · dsimp only
    split
    · show _ ≤ 0x8F
      omega
    · show _ ≤ 0xBF
      omega

/-- **A character is what its bytes start with**, whatever stands behind them. -/
theorem headOf_encode (c : Char) (more : List UInt8) :
    ∃ b tail, String.utf8EncodeChar c = b :: tail ∧
      headOf b (tail ++ more) = .char c (tail.length + 1) := by
  have hc : Char.ofNat c.val.toNat = c := Char.ofNat_toNat c
  have hvalid : c.val.toNat < 0xD800 ∨ 0xDFFF < c.val.toNat ∧ c.val.toNat < 0x110000 := c.valid
  unfold String.utf8EncodeChar
  dsimp only
  generalize c.val.toNat = v at hc hvalid
  rw [← hc]
  split
  · next hone => exact ⟨_, _, rfl, headOf_one hone more⟩
  · next hone =>
    split
    · next htwo => exact ⟨_, _, rfl, headOf_two (by omega) htwo more⟩
    · next htwo =>
      split
      · next hthree => exact ⟨_, _, rfl, headOf_three (by omega) hthree (by omega) more⟩
      · next hthree => exact ⟨_, _, rfl, headOf_four (by omega) (by omega) more⟩

theorem headsAfter_length (bytes more : List UInt8) :
    headsAfter bytes.length (bytes ++ more) = heads more := by
  induction bytes with
  | nil => rfl
  | cons b rest ih => exact ih

/-- **Each character of a text is a head of its bytes**, with more behind them. -/
theorem heads_encode (text : String) (more : List UInt8) :
    heads (encode text ++ more)
      = text.toList.map (fun c => .char c (String.utf8EncodeChar c).length) ++ heads more := by
  unfold encode
  induction text.toList with
  | nil => rfl
  | cons c cs ih =>
    obtain ⟨b, tail, hc, hhead⟩ := headOf_encode c (cs.flatMap String.utf8EncodeChar ++ more)
    rw [List.flatMap_cons, List.map_cons, hc, List.append_assoc, List.cons_append]
    show headOf b _ :: headsAfter ((headOf b _).size - 1) _ = _
    rw [hhead]
    show Head.char c (tail.length + 1) :: headsAfter tail.length _ = _
    rw [headsAfter_length]
    exact congrArg (Head.char c (tail.length + 1) :: ·) ih

/-- **A text is what its bytes read as.** -/
theorem decode?_encode (text : String) : decode? (encode text) = some text := by
  have h := heads_encode text []
  rw [List.append_nil] at h
  have hchars : ∀ cs : List Char,
      (cs.map fun c => Head.char c (String.utf8EncodeChar c).length).mapM Head.char? = some cs := by
    intro cs
    induction cs with
    | nil => rfl
    | cons c cs ih => rw [List.map_cons, List.mapM_cons, ih]; rfl
  unfold decode?
  rw [h]
  show Option.map String.ofList ((_ ++ []).mapM Head.char?) = _
  rw [List.append_nil, hchars, Option.map_some, String.ofList_toList]

theorem lossy_encode (text : String) : lossy (encode text) = text := by
  have h := heads_encode text []
  rw [List.append_nil] at h
  have hshown : Head.shown ∘ (fun c => Head.char c (String.utf8EncodeChar c).length) = id := rfl
  unfold lossy
  rw [h, List.map_append, List.map_map, hshown, List.map_id]
  show String.ofList (text.toList ++ []) = text
  rw [List.append_nil, String.ofList_toList]

theorem encode_lossy_ascii {bytes : List UInt8} (h : ∀ b ∈ bytes, b < 0x80) :
    encode (lossy bytes) = bytes := by
  have hone : ∀ n : Fin 128, String.utf8EncodeChar (Char.ofUInt8 (UInt8.ofNat n))
      = [UInt8.ofNat n] := by decide +kernel
  rw [lossy_ascii h, encode, String.toList_ofList]
  unfold ascii
  induction bytes with
  | nil => rfl
  | cons b rest ih =>
    obtain ⟨hb, hrest⟩ := List.forall_mem_cons.mp h
    have hb : String.utf8EncodeChar (Char.ofUInt8 b) = [b] := by
      simpa using hone ⟨b.toNat, by simpa [UInt8.lt_iff_toNat_lt] using hb⟩
    rw [List.map_cons, List.flatMap_cons, hb, ih hrest]
    rfl

/-! ## 2. Bytes in front of an ASCII byte -/

theorem headsAfter_before {q : UInt8} (hq : q < 0x80) {k : Nat} {bytes : List UInt8}
    (tail : List UInt8) (hk : k ≤ bytes.length) :
    (headsAfter k (bytes ++ q :: tail)).map Head.shown
      = (headsAfter k bytes).map Head.shown ++ (heads (q :: tail)).map Head.shown := by
  induction bytes generalizing k with
  | nil =>
    obtain rfl := Nat.le_zero.mp hk
    rfl
  | cons b rest ih =>
    cases k with
    | succ k => exact ih (Nat.le_of_succ_le_succ hk)
    | zero =>
      obtain ⟨hchar, hsize⟩ := headOf_before hq b rest tail
      have hshown : (headOf b (rest ++ q :: tail)).shown = (headOf b rest).shown := by
        rw [Head.shown, hchar, Head.shown]
      have hle := headOf_size b rest
      rw [List.cons_append, headsAfter, headsAfter, List.map_cons, List.map_cons, hshown, hsize,
        ih (Nat.sub_le_of_le_add hle)]
      rfl

/-- **Bytes read on their own** up to an ASCII byte. -/
theorem lossy_append {q : UInt8} (hq : q < 0x80) (bytes tail : List UInt8) :
    lossy (bytes ++ q :: tail) = lossy bytes ++ lossy (q :: tail) := by
  unfold lossy heads
  rw [headsAfter_before hq tail (Nat.zero_le _), String.ofList_append]
  rfl

theorem quote_ne_ofNat {n : Nat} (h : 0x80 ≤ n) : Char.ofNat n ≠ '"' := by
  intro he
  have hval : (Char.ofNat n).val.toNat = 0x22 := by rw [he]; rfl
  rw [val_ofNat] at hval
  split at hval <;> omega

theorem readTails_ne_quote {point more : Nat} (h : 0x80 ≤ point * 64 ^ more) (seen : Nat)
    (rest : List UInt8) : (readTails point seen more rest).shown ≠ '"' := by
  induction more generalizing point seen rest with
  | zero => exact quote_ne_ofNat (by simpa using h)
  | succ more ih =>
    cases rest with
    | nil => exact show replacement ≠ '"' by decide
    | cons c rest =>
      rw [readTails]
      split
      · refine ih ?_ _ rest
        calc 0x80 ≤ point * 64 ^ (more + 1) := h
          _ = point * 64 * 64 ^ more := by rw [Nat.pow_succ', Nat.mul_assoc]
          _ ≤ (point * 64 + (c.toNat - 0x80)) * 64 ^ more :=
            Nat.mul_le_mul_right _ (Nat.le_add_right _ _)
      · exact show replacement ≠ '"' by decide

/-- Only a quote is shown as one. -/
theorem headOf_ne_quote {b : UInt8} (h : b ≠ '"'.toUInt8) (rest : List UInt8) :
    (headOf b rest).shown ≠ '"' := by
  have hfault : replacement ≠ '"' := by decide
  unfold headOf
  split
  · intro hq
    refine h ?_
    have hb : Char.ofUInt8 b = '"' := (ofNat_toNat b).symm.trans hq
    rw [← hb, toUInt8_ofUInt8]
  · cases hl : lead? b with
    | none => exact hfault
    | some l =>
      cases rest with
      | nil => exact hfault
      | cons c rest =>
        dsimp only
        split
        · next hc =>
          have hlow : l.low.toNat ≤ c.toNat := UInt8.le_iff_toNat_le.mp hc.1
          refine readTails_ne_quote (Nat.le_trans (low_of_lead? hl).2 ?_) 2 rest
          exact Nat.mul_le_mul_right _ (by omega)
        · exact hfault

/-- What is shown for bytes without a quote has none. -/
theorem quote_not_shown {bytes : List UInt8} (h : '"'.toUInt8 ∉ bytes) :
    '"' ∉ (lossy bytes).toList := by
  unfold lossy heads
  rw [String.toList_ofList]
  generalize 0 = k
  induction bytes generalizing k with
  | nil => cases k <;> exact List.not_mem_nil
  | cons b rest ih =>
    obtain ⟨hb, hrest⟩ := not_or.mp (mt List.mem_cons.mpr h)
    cases k with
    | succ k => exact ih hrest k
    | zero =>
      rw [headsAfter, List.map_cons, List.mem_cons, not_or]
      exact ⟨(headOf_ne_quote (Ne.symm hb) rest).symm, ih hrest _⟩

/-! ## 3. One token read again -/

/-- A blank, or nothing, is what comes next. -/
def Parted (more : List UInt8) : Prop := ∀ b, more.head? = some b → b = ' '.toUInt8

theorem Parted.head_ne {more : List UInt8} (h : Parted more) {b : UInt8} (hb : b ≠ ' '.toUInt8) :
    more.head? ≠ some b := fun he => hb (h b he)

theorem Parted.takeWhile {more : List UInt8} (h : Parted more) {p : UInt8 → Bool}
    (hp : p ' '.toUInt8 = false) : more.takeWhile p = [] := by
  cases more with
  | nil => rfl
  | cons b more =>
    obtain rfl := h b rfl
    rw [List.takeWhile_cons, hp]
    rfl

theorem takeWhile_again {more : List UInt8} (h : Parted more) {p : UInt8 → Bool}
    (hp : p ' '.toUInt8 = false) (rest : List UInt8) :
    (rest.takeWhile p ++ more).takeWhile p = rest.takeWhile p := by
  rw [List.takeWhile_append_of_pos fun b hb => List.mem_takeWhile_imp hb, h.takeWhile hp,
    List.append_nil]

/-- Whether the bytes of a token, parted from what was behind them, are read as before. They are
    ASCII then, and so are the bytes of the word that is shown for them. -/
def Rereads (read : List UInt8 → Mark × Nat) : Prop :=
  ∀ rest more k, (read rest).1 = .token k → Parted more →
    read (rest.take (read rest).2 ++ more) = read rest ∧ ∀ b ∈ rest.take (read rest).2, b < 0x80

theorem signPiece_alone {rest : List UInt8} (alone joined : Kind)
    (h : rest.head? ≠ some '='.toUInt8) : signPiece alone joined rest = (.token alone, 0) := by
  unfold signPiece
  rw [if_neg h]

theorem signPiece_rereads (alone joined : Kind) : Rereads (signPiece alone joined) := by
  intro rest more k _ hmore
  by_cases heq : rest.head? = some '='.toUInt8
  · obtain ⟨rest, rfl⟩ := List.head?_eq_some_iff.mp heq
    refine ⟨rfl, fun b hb => ?_⟩
    obtain rfl : b = '='.toUInt8 := by simpa [signPiece] using hb
    decide
  · rw [signPiece_alone alone joined heq]
    exact ⟨signPiece_alone alone joined (hmore.head_ne (by decide)), fun b hb =>
      absurd hb List.not_mem_nil⟩

/-- A slash that starts no comment is a sign. -/
theorem slashPiece_sign {rest : List UInt8} (hline : rest.head? ≠ some '/'.toUInt8)
    (hblock : rest.head? ≠ some '*'.toUInt8) :
    slashPiece rest = signPiece .slash .slashEqual rest := by
  unfold slashPiece
  rw [if_neg hline, if_neg hblock]

theorem slashPiece_rereads : Rereads slashPiece := by
  intro rest more k hk hmore
  by_cases hline : rest.head? = some '/'.toUInt8
  · simp [slashPiece, if_pos hline] at hk
  · by_cases hblock : rest.head? = some '*'.toUInt8
    · unfold slashPiece at hk
      rw [if_neg hline, if_pos hblock] at hk
      split at hk <;> cases hk
    · rw [slashPiece_sign hline hblock] at hk ⊢
      obtain ⟨hsame, hascii⟩ := signPiece_rereads _ _ rest more k hk hmore
      refine ⟨?_, hascii⟩
      by_cases heq : rest.head? = some '='.toUInt8
      · obtain ⟨rest, rfl⟩ := List.head?_eq_some_iff.mp heq
        rfl
      · rw [signPiece_alone _ _ heq]
        have hslash := slashPiece_sign (hmore.head_ne (by decide)) (hmore.head_ne (by decide))
        exact hslash.trans (signPiece_alone _ _ (hmore.head_ne (by decide)))

/-- The digits of a fraction, from its point on. -/
def fractionOf (rest : List UInt8) : List UInt8 :=
  if rest.head? = some '.'.toUInt8 then (rest.drop 1).takeWhile isDigit else []

/-- A number, cut into the digits in front of the point and the rest. -/
theorem numberPiece_cut (b : UInt8) {whole behind : List UInt8} (hwhole : ∀ c ∈ whole, isDigit c)
    (hbehind : behind.takeWhile isDigit = []) :
    numberPiece b (whole ++ behind)
      = (.token (.number (Decimal.ofDigits (ascii (b :: whole)) (ascii (fractionOf behind)))),
          whole.length + if fractionOf behind = [] then 0 else (fractionOf behind).length + 1) := by
  unfold numberPiece
  dsimp only
  rw [List.takeWhile_append_of_pos hwhole, hbehind, List.append_nil, ← List.drop_drop,
    List.drop_left]
  rfl

theorem isDigit_ascii {c : UInt8} (h : isDigit c = true) : c < 0x80 :=
  lt_of_inWord (by rw [inWord, h, Bool.or_true])

theorem numberPiece_rereads (b : UInt8) : Rereads (numberPiece b) := by
  intro rest more k _ hmore
  obtain ⟨whole, behind, hrest, hwhole, hbehind⟩ : ∃ whole behind, rest = whole ++ behind ∧
      (∀ c ∈ whole, isDigit c = true) ∧ behind.takeWhile isDigit = [] :=
    ⟨rest.takeWhile isDigit, rest.dropWhile isDigit, List.takeWhile_append_dropWhile.symm,
      fun c hc => List.mem_takeWhile_imp hc, by
        simpa using List.dropWhile_get_zero_not isDigit rest⟩
  rw [hrest, numberPiece_cut b hwhole hbehind]
  by_cases hfraction : fractionOf behind = []
  · have hpoint : fractionOf more = [] := if_neg (hmore.head_ne (by decide))
    rw [if_pos hfraction, hfraction, Nat.add_zero, List.take_left,
      numberPiece_cut b hwhole (hmore.takeWhile (by decide)), hpoint]
    exact ⟨rfl, fun c hc => isDigit_ascii (hwhole c hc)⟩
  · have hhead : behind.head? = some '.'.toUInt8 := by
      by_contra h
      exact hfraction (if_neg h)
    obtain ⟨tail, rfl⟩ := List.head?_eq_some_iff.mp hhead
    have htail : fractionOf ('.'.toUInt8 :: tail) = tail.takeWhile isDigit := rfl
    have htake : (whole ++ '.'.toUInt8 :: tail).take
        (whole.length + ((tail.takeWhile isDigit).length + 1))
        = whole ++ '.'.toUInt8 :: tail.takeWhile isDigit := by
      rw [List.take_length_add_append, List.take_succ_cons,
        ← List.prefix_iff_eq_take.mp (List.takeWhile_prefix isDigit)]
    have hagain : fractionOf ('.'.toUInt8 :: (tail.takeWhile isDigit ++ more))
        = tail.takeWhile isDigit := takeWhile_again hmore (by decide) tail
    rw [if_neg hfraction, htail, htake, List.append_assoc, List.cons_append,
      numberPiece_cut b hwhole (by rw [List.takeWhile_cons]; rfl), hagain,
      if_neg (htail ▸ hfraction)]
    refine ⟨rfl, fun c hc => ?_⟩
    rcases List.mem_append.mp hc with hc | hc
    · exact isDigit_ascii (hwhole c hc)
    · rcases List.mem_cons.mp hc with rfl | hc
      · decide
      · exact isDigit_ascii (List.mem_takeWhile_imp hc)

theorem wordPiece_rereads (b : UInt8) : Rereads (wordPiece b) := by
  intro rest more k _ hmore
  have htake : rest.take (wordPiece b rest).2 = rest.takeWhile inWord :=
    (List.prefix_iff_eq_take.mp (List.takeWhile_prefix inWord)).symm
  rw [htake]
  refine ⟨?_, fun c hc => lt_of_inWord (List.mem_takeWhile_imp hc)⟩
  unfold wordPiece
  rw [takeWhile_again hmore (by decide)]

/-- **A token other than a string is read as before.** -/
theorem pieceAt_rereads {b : UInt8} (hb : b ≠ '"'.toUInt8) : Rereads (pieceAt b) := by
  have hone : ∀ m : Mark, Rereads fun _ => (m, 0) :=
    fun m rest more _ _ _ => ⟨rfl, fun b hb => nomatch hb⟩
  intro rest more k
  generalize hread : pieceAt b rest = read
  unfold pieceAt at hread ⊢
  revert hread
  split
  case h_21 =>
    rintro rfl
    exact slashPiece_rereads rest more k
  case h_22 heq => exact absurd (by rw [← toUInt8_ofUInt8 b, heq]) hb
  case h_23 =>
    split
    · rintro rfl
      exact numberPiece_rereads b rest more k
    · split
      · rintro rfl
        exact wordPiece_rereads b rest more k
      · rintro rfl hk
        unfold faultyPiece at hk
        split at hk <;> cases hk
  all_goals
    rintro rfl
    first
    | exact hone _ rest more k
    | exact signPiece_rereads _ _ rest more k

/-- A token starts with an ASCII byte. -/
theorem token_ascii {b : UInt8} {rest : List UInt8} {k : Kind} {n : Nat}
    (h : pieceAt b rest = (.token k, n)) : b < 0x80 := by
  unfold pieceAt at h
  split at h
  case h_23 =>
    split at h
    · next hdigit => exact isDigit_ascii hdigit
    · split at h
      · next hword => exact lt_of_inWord (by rw [inWord, hword, Bool.true_or])
      · unfold faultyPiece at h
        split at h <;> cases h
  all_goals
    next heq =>
      rw [← toUInt8_ofUInt8 b, heq]
      decide

/-! ## 4. The word of a token -/

/-- **A word that is scanned as a token** of a kind, whatever stands a space behind it. -/
def Stable (k : Kind) (word : String) : Prop :=
  ∃ b rest, encode word = b :: rest ∧
    ∀ more, Parted more → pieceAt b (rest ++ more) = (.token k, rest.length)

theorem stringPiece_closed {inside : List UInt8} (h : '"'.toUInt8 ∉ inside) (more : List UInt8) :
    stringPiece (inside ++ '"'.toUInt8 :: more)
      = (.token (.string (lossy inside)), inside.length + 1) := by
  have hinside : (inside ++ '"'.toUInt8 :: more).takeWhile (· ≠ '"'.toUInt8) = inside := by
    have hall : ∀ b ∈ inside, decide (b ≠ '"'.toUInt8) = true := fun b hb =>
      decide_eq_true fun he => h (he ▸ hb)
    rw [List.takeWhile_append_of_pos hall]
    simp
  have hclosed : inside.length ≠ (inside ++ '"'.toUInt8 :: more).length := by
    rw [List.length_append, List.length_cons]
    omega
  unfold stringPiece
  dsimp only
  rw [hinside, if_neg hclosed]

/-- A string that ends is cut at its quotes. -/
theorem stringPiece_cut {rest : List UInt8} {k : Kind} {n : Nat}
    (h : stringPiece rest = (.token k, n)) : ∃ inside, '"'.toUInt8 ∉ inside ∧
      k = .string (lossy inside) ∧ rest.take n = inside ++ ['"'.toUInt8] := by
  have hquote : '"'.toUInt8 ∉ rest.takeWhile (· ≠ '"'.toUInt8) := fun hq => by
    simpa using List.mem_takeWhile_imp hq
  have hsplit : rest.takeWhile (· ≠ '"'.toUInt8) ++ rest.dropWhile (· ≠ '"'.toUInt8) = rest :=
    List.takeWhile_append_dropWhile
  unfold stringPiece at h
  dsimp only at h
  split at h
  · cases h
  · next hopen =>
    cases h
    refine ⟨_, hquote, rfl, ?_⟩
    have hbehind : rest.dropWhile (· ≠ '"'.toUInt8) ≠ [] := fun hnil => by
      rw [hnil, List.append_nil] at hsplit
      exact hopen (congrArg List.length hsplit)
    obtain ⟨tail, htail⟩ := List.head?_eq_some_iff.mp (head?_dropWhile_ne hbehind)
    rw [htail] at hsplit
    generalize rest.takeWhile (· ≠ '"'.toUInt8) = inside at hsplit ⊢
    rw [← hsplit, List.take_length_add_append]
    rfl

/-- An ASCII byte is a character of its own. -/
theorem lossy_cons {q : UInt8} (hq : q < 0x80) (rest : List UInt8) :
    lossy (q :: rest) = lossy [q] ++ lossy rest := by
  have hhead : ∀ rest, headOf q rest = .char (Char.ofNat q.toNat) 1 := fun rest => by
    unfold headOf
    rw [if_pos hq]
  have hheads : ∀ rest, heads (q :: rest) = .char (Char.ofNat q.toNat) 1 :: heads rest :=
    fun rest => by
      rw [heads, headsAfter, hhead]
      rfl
  unfold lossy
  rw [hheads, hheads, ← String.ofList_append]
  rfl

/-- What is shown for a string, with its quotes. -/
theorem lossy_quoted (inside : List UInt8) :
    encode (lossy ('"'.toUInt8 :: (inside ++ ['"'.toUInt8])))
      = '"'.toUInt8 :: (encode (lossy inside) ++ ['"'.toUInt8]) := by
  have hquote : '"'.toUInt8 < 0x80 := by decide
  have hone : encode (lossy ['"'.toUInt8]) = ['"'.toUInt8] :=
    encode_lossy_ascii fun b hb => List.mem_singleton.mp hb ▸ hquote
  rw [lossy_cons hquote, lossy_append hquote, encode_append, encode_append, hone]
  rfl

/-- **The word of a token is scanned as that token.** -/
theorem stable_of_piece {b : UInt8} {rest : List UInt8} {k : Kind} {n : Nat}
    (h : pieceAt b rest = (.token k, n)) : Stable k (lossy (b :: rest.take n)) := by
  by_cases hb : b = '"'.toUInt8
  · subst hb
    have hstring : ∀ rest, pieceAt '"'.toUInt8 rest = stringPiece rest := fun _ => rfl
    obtain ⟨inside, hinside, rfl, htake⟩ := stringPiece_cut ((hstring rest).symm.trans h)
    have hshown : '"'.toUInt8 ∉ encode (lossy inside) := by
      have hcount : (encode (lossy inside)).count '"'.toUInt8 = (lossy inside).toList.count '"' :=
        count_encode (by decide) _
      rw [List.count_eq_zero.mpr (quote_not_shown hinside)] at hcount
      exact List.count_eq_zero.mp hcount
    rw [htake]
    refine ⟨_, _, lossy_quoted inside, fun more _ => ?_⟩
    rw [hstring, List.append_assoc, List.singleton_append, stringPiece_closed hshown, lossy_encode,
      List.length_append]
    rfl
  · have hmark : (pieceAt b rest).1 = .token k := congrArg Prod.fst h
    have hsize : (pieceAt b rest).2 = n := congrArg Prod.snd h
    have hle := pieceAt_le b rest
    rw [hsize] at hle
    have hreads := fun more (hmore : Parted more) => pieceAt_rereads hb rest more k hmark hmore
    rw [hsize] at hreads
    have hascii : ∀ c ∈ b :: rest.take n, c < 0x80 :=
      List.forall_mem_cons.mpr ⟨token_ascii h, (hreads [] fun b hb => nomatch hb).2⟩
    refine ⟨b, rest.take n, encode_lossy_ascii hascii, fun more hmore => ?_⟩
    rw [(hreads more hmore).1, h, List.length_take_of_le hle]

theorem stable_of_mem_pieces {bytes : List UInt8} {piece : Piece} {k : Kind}
    (h : piece ∈ pieces bytes) (hk : piece.mark = .token k) : Stable k (lossy piece.bytes) := by
  fun_induction pieces bytes with
  | case1 => cases h
  | case2 b rest ih =>
    rcases List.mem_cons.mp h with rfl | h
    · exact stable_of_piece (Prod.ext hk rfl)
    · exact ih h

/-! ## 5. Words next to each other -/

/-- The kind of a token and its word. -/
def word (t : Token) : Kind × String := (t.kind, t.lexeme)

theorem Stable.pieces {k : Kind} {w : String} (h : Stable k w) {more : List UInt8}
    (hmore : Parted more) :
    pieces (encode w ++ more) = ⟨.token k, encode w⟩ :: Token.pieces more := by
  obtain ⟨b, rest, henc, hread⟩ := h
  rw [henc, List.cons_append, pieces_cons, hread more hmore, List.take_left, List.drop_left]

/-- A stable word is one token of a scan, whose word it is. -/
theorem items_stable {k : Kind} {w : String} (h : Stable k w) {more : List UInt8}
    (hmore : Parted more) (p : Position) :
    itemsOf p (pieces (encode w ++ more))
      = .ok ⟨k, w, after p (encode w)⟩ :: itemsOf (after p (encode w)) (pieces more) := by
  rw [h.pieces hmore, itemsOf]
  show Except.ok (⟨k, lossy (encode w), _⟩ : Token) :: _ = _
  rw [lossy_encode]
  rfl

theorem items_space (p : Position) (more : List UInt8) :
    itemsOf p (pieces (encode " " ++ more)) = itemsOf (stepOver p ' '.toUInt8) (pieces more) := by
  show itemsOf p (pieces (' '.toUInt8 :: more)) = _
  rw [pieces_cons, itemsOf]
  rfl

/-- **Stable words with a space between are scanned as their tokens.** -/
theorem scan_words {words : List (Kind × String)} (h : ∀ w ∈ words, Stable w.1 w.2)
    (p : Position) :
    let items := itemsOf p (pieces (encode (" ".intercalate (words.map Prod.snd))))
    errorsOf items = [] ∧ (tokensOf items).map word = words := by
  induction words generalizing p with
  | nil =>
    show errorsOf (itemsOf p (pieces [])) = [] ∧ (tokensOf (itemsOf p (pieces []))).map word = []
    rw [pieces_nil]
    exact ⟨rfl, rfl⟩
  | cons w words ih =>
    obtain ⟨hw, hwords⟩ := List.forall_mem_cons.mp h
    cases words with
    | nil =>
      have hnone : Parted [] := fun b hb => nomatch hb
      have hone := items_stable hw hnone p
      rw [List.append_nil, pieces_nil] at hone
      rw [List.map_cons, List.map_nil, String.intercalate_singleton, hone]
      exact ⟨rfl, rfl⟩
    | cons v words =>
      obtain ⟨herrors, htokens⟩ := ih hwords (stepOver (after p (encode w.2)) ' '.toUInt8)
      rw [List.map_cons] at herrors htokens
      rw [List.map_cons, List.map_cons, String.intercalate_cons_cons, encode_append, encode_append,
        List.append_assoc]
      have hspace : Parted (encode " " ++ encode (" ".intercalate (v.2 :: words.map Prod.snd))) :=
        fun b hb => (Option.some.inj hb).symm
      rw [items_stable hw hspace p, items_space]
      exact ⟨herrors, congrArg (w :: ·) htokens⟩

/-- The tokens of a source in front of its end, whatever faults lie between them. -/
def tokensIn (source : List UInt8) : List Token :=
  (tokensOf (scan source)).filter (·.kind ≠ .eof)

/-- The words of a source, with single spaces between them. -/
def respelled (source : List UInt8) : List UInt8 :=
  encode (" ".intercalate ((tokensIn source).map (·.lexeme)))

/-- The word of every token of a source is stable. -/
theorem stable_of_mem_tokensIn {source : List UInt8} {t : Token} (h : t ∈ tokensIn source) :
    Stable t.kind t.lexeme := by
  obtain ⟨hmem, hkind⟩ := List.mem_filter.mp h
  rcases piece_of_mem_scan hmem with heof | ⟨piece, k, pos, hp, hk, rfl⟩
  · simp [heof] at hkind
  · exact stable_of_mem_pieces hp hk

/-- **The words of a source determine its tokens.** Joined by single spaces they are scanned without
    a fault, as tokens of the same kinds and payloads with the same words, and then the end. -/
theorem scan_respelled (source : List UInt8) :
    errorsOf (scan (respelled source)) = [] ∧
      (tokensOf (scan (respelled source))).map word
        = (tokensIn source).map word ++ [(.eof, "")] := by
  have hstable : ∀ w ∈ (tokensIn source).map word, Stable w.1 w.2 := by
    intro w hw
    obtain ⟨t, ht, rfl⟩ := List.mem_map.mp hw
    exact stable_of_mem_tokensIn ht
  have hwords : (tokensIn source).map (·.lexeme) = ((tokensIn source).map word).map Prod.snd := by
    rw [List.map_map]
    rfl
  obtain ⟨herrors, htokens⟩ := scan_words hstable start
  rw [← hwords] at herrors htokens
  refine ⟨(errorsOf_scan _).trans herrors, ?_⟩
  rw [tokensOf_scan, List.map_append]
  exact congrArg (· ++ _) htokens

end Lox.Token
