/-!
# Names in order

`sorted` puts texts in the order of their bytes, which is that of their code points.
-/

namespace Lox.Text

/-- Texts in the order of their bytes. -/
def sorted (texts : List String) : List String := texts.mergeSort fun a b => decide (a ≤ b)

/-- Sorting loses nothing and adds nothing. -/
theorem sorted_perm (texts : List String) : (sorted texts).Perm texts :=
  List.mergeSort_perm texts _

/-- Sorting puts what is smaller in front. -/
theorem pairwise_sorted (texts : List String) : (sorted texts).Pairwise (· ≤ ·) := by
  have trans (a b c : String) (hab : decide (a ≤ b) = true) (hbc : decide (b ≤ c) = true) :
      decide (a ≤ c) = true := by
    simp only [decide_eq_true_eq] at hab hbc ⊢
    exact String.le_trans hab hbc
  have total (a b : String) : (decide (a ≤ b) || decide (b ≤ a)) = true := by
    simpa using String.le_total a b
  simpa [sorted] using List.pairwise_mergeSort trans total texts

end Lox.Text
