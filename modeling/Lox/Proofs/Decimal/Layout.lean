import Lox.Decimal.Layout
import Lox.Proofs.Decimal.Shortest

/-!
# What a number is written as

* `decimalValue`: the value of digits with perhaps a point among them.
* `text_written`: **a double is written as digits whose value rounds to it**, behind a sign if it is
  negative.
* `text_injective`: **no two doubles are written alike.**
-/

namespace Lox.Decimal

/-! ## 1. The value of digits -/

/-- A digit or a point. -/
def isPlain (c : Char) : Bool := c.isDigit || c == '.'

/-- **The value of digits** with perhaps a point among them. -/
def decimalValue (cs : List Char) : ℚ :=
  let whole := cs.takeWhile (· != '.')
  let fraction := (cs.dropWhile (· != '.')).tail
  Nat.ofDigitChars 10 (whole ++ fraction) 0 / 10 ^ fraction.length

theorem notPoint {cs : List Char} (h : ∀ c ∈ cs, c.isDigit = true) : ∀ c ∈ cs, (c != '.') = true := by
  intro c hc
  have hdigit := h c hc
  rw [bne_iff_ne]
  rintro rfl
  cases hdigit

theorem decimalValue_whole {cs : List Char} (h : ∀ c ∈ cs, c.isDigit = true) :
    decimalValue cs = Nat.ofDigitChars 10 cs 0 := by
  have htake : cs.takeWhile (· != '.') = cs := List.takeWhile_eq_self_iff.mpr (notPoint h)
  have hdrop : cs.dropWhile (· != '.') = [] := List.dropWhile_eq_nil_iff.mpr (notPoint h)
  simp [decimalValue, htake, hdrop]

theorem decimalValue_point {whole : List Char} (h : ∀ c ∈ whole, c.isDigit = true)
    (fraction : List Char) : decimalValue (whole ++ '.' :: fraction)
      = Nat.ofDigitChars 10 (whole ++ fraction) 0 / 10 ^ fraction.length := by
  have htake : (whole ++ '.' :: fraction).takeWhile (· != '.') = whole := by
    rw [List.takeWhile_append_of_pos (notPoint h)]
    simp
  have hdrop : (whole ++ '.' :: fraction).dropWhile (· != '.') = '.' :: fraction := by
    rw [List.dropWhile_append_of_pos (notPoint h)]
    simp
  simp only [decimalValue, htake, hdrop, List.tail_cons]

theorem isDigit_of_mem_digits {n : Nat} : ∀ c ∈ digits n, c.isDigit = true := fun _ hc =>
  Nat.isDigit_of_mem_toDigits (by decide) (by decide) hc

theorem ofDigitChars_digits (n : Nat) : Nat.ofDigitChars 10 (digits n) 0 = n :=
  Nat.ofDigitChars_ten_toDigits

/-- **Digits that are put in their place** have the value that they stand for. -/
theorem decimalValue_positional (d : Nat) (k : Int) :
    decimalValue (positional (digits d) k) = d * 10 ^ k := by
  unfold positional
  dsimp only
  by_cases hk : 0 ≤ k
  · obtain ⟨n, rfl⟩ := Int.eq_ofNat_of_zero_le hk
    rw [if_pos hk, decimalValue_whole, Nat.ofDigitChars_append, ofDigitChars_digits,
      Nat.ofDigitChars_replicate_zero]
    · push_cast [Int.toNat_natCast]
      rw [mul_comm, zpow_natCast]
    · intro c hc
      rcases List.mem_append.mp hc with hc | hc
      · exact isDigit_of_mem_digits c hc
      · rw [List.eq_of_mem_replicate hc]
        rfl
  obtain ⟨n, rfl⟩ : ∃ n : Nat, k = -n := ⟨k.natAbs, by omega⟩
  rw [if_neg hk, zpow_neg, zpow_natCast, neg_neg, Int.toNat_natCast, ← div_eq_mul_inv]
  by_cases hn : n < (digits d).length
  · have hlength : ((digits d).drop ((digits d).length - n)).length = n := by
      rw [List.length_drop]
      omega
    rw [if_pos hn, decimalValue_point fun c hc => isDigit_of_mem_digits c (List.mem_of_mem_take hc),
      List.take_append_drop, ofDigitChars_digits, hlength]
  · have hzero : ∀ c ∈ ['0'], c.isDigit = true := by simp
    have hlength : (List.replicate (n - (digits d).length) '0' ++ digits d).length = n := by
      rw [List.length_append, List.length_replicate]
      omega
    rw [if_neg hn, ← List.singleton_append, decimalValue_point hzero, hlength, List.singleton_append,
      Nat.ofDigitChars_cons, Nat.ofDigitChars_append, Nat.ofDigitChars_replicate_zero]
    show ((Nat.ofDigitChars 10 (digits d) (10 ^ _ * 0) : Nat) : ℚ) / _ = _
    rw [Nat.mul_zero, ofDigitChars_digits]

theorem isPlain_of_mem_positional (d : Nat) (k : Int) :
    ∀ c ∈ positional (digits d) k, isPlain c = true := by
  have hdigits : ∀ c ∈ digits d, isPlain c = true := fun c hc => by
    rw [isPlain, isDigit_of_mem_digits c hc, Bool.true_or]
  have hzeros : ∀ n, ∀ c ∈ List.replicate n '0', isPlain c = true := fun n c hc => by
    rw [List.eq_of_mem_replicate hc]
    rfl
  intro c hc
  unfold positional at hc
  dsimp only at hc
  split at hc
  · rcases List.mem_append.mp hc with hc | hc
    · exact hdigits c hc
    · exact hzeros _ c hc
  · split at hc
    · rcases List.mem_append.mp hc with hc | hc
      · exact hdigits c (List.mem_of_mem_take hc)
      · rcases List.mem_cons.mp hc with rfl | hc
        · rfl
        · exact hdigits c (List.mem_of_mem_drop hc)
    · rw [List.mem_cons, List.mem_cons, List.mem_append] at hc
      rcases hc with rfl | rfl | hc | hc
      · rfl
      · rfl
      · exact hzeros _ c hc
      · exact hdigits c hc

theorem positional_ne_nil (d : Nat) (k : Int) : positional (digits d) k ≠ [] := by
  unfold positional
  dsimp only
  split
  · exact List.append_ne_nil_of_left_ne_nil Nat.toDigits_ne_nil _
  · split
    · exact List.append_ne_nil_of_right_ne_nil _ (List.cons_ne_nil _ _)
    · exact List.cons_ne_nil _ _

/-! ## 2. Doubles written out -/

/-- What a double that is not negative is written as. -/
structure Written (m : Nat) (q : Int) (cs : List Char) : Prop where
  plain : ∀ c ∈ cs, isPlain c = true
  ne_nil : cs ≠ []
  rounds : Rounds m q (decimalValue cs)

/-- A double that is an integer has its value. -/
theorem integer?_eq_some {m n : Nat} {q : Int} (h : integer? m q = some n) :
    (n : ℚ) = m * 2 ^ q := by
  unfold integer? at h
  by_cases hq : 0 ≤ q
  · obtain ⟨k, rfl⟩ := Int.eq_ofNat_of_zero_le hq
    rw [if_pos hq] at h
    obtain rfl := Option.some.inj h
    rw [zpow_natCast]
    push_cast [Nat.pow_eq, Int.toNat_natCast]
    rfl
  · obtain ⟨k, rfl⟩ : ∃ k : Nat, q = -k := ⟨q.natAbs, by omega⟩
    rw [if_neg hq] at h
    split at h
    · next hdvd =>
      obtain rfl := Option.some.inj h
      rw [neg_neg, Int.toNat_natCast, Nat.pow_eq] at hdvd ⊢
      rw [Nat.cast_div (Nat.dvd_of_mod_eq_zero hdvd) (by positivity), zpow_neg, zpow_natCast,
        div_eq_mul_inv]
      push_cast
      rfl
    · cases h

/-- A double that is none has a fraction. -/
theorem integer?_eq_none {m : Nat} {q : Int} (h : integer? m q = none) : q < 0 ∧ m ≠ 0 := by
  unfold integer? at h
  split at h
  · cases h
  · next hq =>
    refine ⟨by omega, ?_⟩
    rintro rfl
    rw [if_pos (Nat.zero_mod _)] at h
    cases h

/-- **A double is written as digits whose value rounds to it**, behind a sign if it is negative. -/
theorem text_written (negative : Bool) {m : Nat} {q : Int} (hc : Canonical m q) :
    ∃ cs, text ['.', '0'] (.finite negative m q) = signed negative cs ∧ Written m q cs := by
  cases hinteger : integer? m q with
  | some n =>
    refine ⟨digits n ++ ['.', '0'], ?_, ?_, List.append_ne_nil_of_right_ne_nil _ (by decide), ?_⟩
    · simp only [text, Parts.integral?, hinteger]
    · intro c hmem
      rcases List.mem_append.mp hmem with hmem | hmem
      · rw [isPlain, isDigit_of_mem_digits c hmem, Bool.true_or]
      · have hends : ∀ c ∈ ['.', '0'], isPlain c = true := by simp [isPlain]
        exact hends c hmem
    · rw [decimalValue_point isDigit_of_mem_digits, Nat.ofDigitChars_append, ofDigitChars_digits]
      have hvalue : ((Nat.ofDigitChars 10 ['0'] n : Nat) : ℚ) / 10 ^ ['0'].length = m * 2 ^ q := by
        rw [← integer?_eq_some hinteger]
        simp [Nat.ofDigitChars_cons]
      rw [hvalue]
      exact rounds_self m q
  | none =>
    obtain ⟨hq, hm⟩ := integer?_eq_none hinteger
    obtain ⟨n, rfl⟩ := Nat.exists_eq_succ_of_ne_zero hm
    refine ⟨positional (digits (shortest .up (n + 1) q).1) (shortest .up (n + 1) q).2, ?_,
      isPlain_of_mem_positional _ _, ?_, ?_⟩
    · simp only [text, Parts.integral?, hinteger]
      rfl
    · exact positional_ne_nil _ _
    · rw [decimalValue_positional]
      exact shortest_rounds .up hc hq

/-- A sign is no part of the digits. -/
theorem signed_injective {negative negative' : Bool} {cs cs' : List Char}
    (hcs : ∀ c ∈ cs, isPlain c = true) (hcs' : ∀ c ∈ cs', isPlain c = true)
    (h : signed negative cs = signed negative' cs') : negative = negative' ∧ cs = cs' := by
  have hsign : isPlain '-' = false := by decide
  cases negative <;> cases negative'
  · exact ⟨rfl, h⟩
  · have hmem : '-' ∈ cs := by
      rw [show cs = '-' :: cs' from h]
      exact List.mem_cons_self
    rw [hcs _ hmem] at hsign
    cases hsign
  · have hmem : '-' ∈ cs' := by
      rw [← show '-' :: cs = cs' from h]
      exact List.mem_cons_self
    rw [hcs' _ hmem] at hsign
    cases hsign
  · exact ⟨rfl, (List.cons.inj h).2⟩

/-- **No two doubles are written alike.** -/
theorem text_injective {negative negative' : Bool} {m m' : Nat} {q q' : Int} (hc : Canonical m q)
    (hc' : Canonical m' q')
    (h : text ['.', '0'] (.finite negative m q) = text ['.', '0'] (.finite negative' m' q')) :
    Parts.finite negative m q = .finite negative' m' q' := by
  obtain ⟨cs, htext, hcs⟩ := text_written negative hc
  obtain ⟨cs', htext', hcs'⟩ := text_written negative' hc'
  rw [htext, htext'] at h
  obtain ⟨rfl, rfl⟩ := signed_injective hcs.plain hcs'.plain h
  obtain ⟨rfl, rfl⟩ := rounds_unique hc hc' hcs.rounds hcs'.rounds
  rfl

end Lox.Decimal
