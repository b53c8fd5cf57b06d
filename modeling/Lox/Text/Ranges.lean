/-!
# Sets of characters

A property of characters as a table: ranges of code points, both ends included, in ascending order
and apart from one another. A search stops at the first range past the character; in an ascending
table it misses nothing (`has_iff`).
-/

namespace Lox.Text

/-- Ranges of code points, both ends included. -/
abbrev Ranges := List (Nat × Nat)

namespace Ranges

/-- Whether a character lies in one of the ranges, of which none past it is looked at. -/
def has (c : Char) : Ranges → Bool
  | [] => false
  | r :: rest => r.1 ≤ c.toNat && (c.toNat ≤ r.2 || has c rest)

/-- Whether the ranges are in ascending order and apart. -/
def ascending : Ranges → Bool
  | [] => true
  | [r] => r.1 ≤ r.2
  | r :: s :: rest => r.1 ≤ r.2 && r.2 + 1 < s.1 && ascending (s :: rest)

/-- In an ascending table no range starts in front of the first one. -/
theorem fst_le_of_mem {r : Nat × Nat} {rest : Ranges} (h : ascending (r :: rest) = true)
    {s : Nat × Nat} (hs : s ∈ rest) : r.1 ≤ s.1 := by
  induction rest generalizing r with
  | nil => simp at hs
  | cons q rest ih =>
    simp only [ascending, Bool.and_eq_true, decide_eq_true_eq] at h
    rcases List.mem_cons.1 hs with rfl | hs
    · omega
    · have := ih h.2 hs
      omega

/-- What follows in an ascending table is one. -/
theorem ascending_tail {r : Nat × Nat} {rest : Ranges} (h : ascending (r :: rest) = true) :
    ascending rest = true := by
  cases rest with
  | nil => rfl
  | cons s rest =>
    simp only [ascending, Bool.and_eq_true] at h
    exact h.2

/-- **An ascending table holds the characters of its ranges and no others.** -/
theorem has_iff {rs : Ranges} (h : rs.ascending = true) (c : Char) :
    has c rs = true ↔ ∃ r ∈ rs, r.1 ≤ c.toNat ∧ c.toNat ≤ r.2 := by
  induction rs with
  | nil => simp [has]
  | cons r rest ih =>
    simp only [has, Bool.and_eq_true, Bool.or_eq_true, decide_eq_true_eq, List.mem_cons,
      exists_eq_or_imp, ih (ascending_tail h)]
    constructor
    · rintro ⟨lo, hi | later⟩
      · exact Or.inl ⟨lo, hi⟩
      · exact Or.inr later
    · rintro (⟨lo, hi⟩ | ⟨s, hs, lo, hi⟩)
      · exact ⟨lo, Or.inl hi⟩
      · exact ⟨Nat.le_trans (fst_le_of_mem h hs) lo, Or.inr ⟨s, hs, lo, hi⟩⟩

end Ranges

end Lox.Text
