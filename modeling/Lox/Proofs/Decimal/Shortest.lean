import Mathlib
import Lox.Decimal.Shortest
import Lox.Proofs.Decimal.Doubles

/-!
# What the shortest decimal reads back as

* `Rounds m q v`: the real `v` lies in the interval of the double `m * 2 ^ q`.
* `rounds_unique`: **no real rounds to two doubles.**
* `onGrid_rounds`: what is found on a grid rounds to the double. `onGrid_isSome`: on a grid that is fine
  enough something is found.
* `shortest_rounds`: **the shortest decimal rounds to its double.**
-/

namespace Lox.Decimal

/-! ## 1. Intervals -/

/-- A point between the ends of an interval, in quarters of the spacing. -/
def Interval.Has (i : Interval) (w : ℚ) : Prop :=
  if i.closed then i.low ≤ w ∧ w ≤ i.high else i.low < w ∧ w < i.high

/-- **A real that rounds to the double** `m * 2 ^ q`. -/
def Rounds (m : Nat) (q : Int) (v : ℚ) : Prop := (interval m q).Has (v / 2 ^ (q - 2))

theorem Interval.Has.within {i : Interval} {w : ℚ} (h : i.Has w) : i.low ≤ w ∧ w ≤ i.high := by
  unfold Interval.Has at h
  split at h
  · exact h
  · exact ⟨h.1.le, h.2.le⟩

theorem Interval.Has.strict {i : Interval} {w : ℚ} (h : i.Has w) (ho : i.closed = false) :
    i.low < w ∧ w < i.high := by
  unfold Interval.Has at h
  rwa [if_neg (by rw [ho]; exact Bool.false_ne_true)] at h

theorem le_low (m : Nat) (q : Int) : 4 * (m : ℚ) ≤ (interval m q).low + 2 := by
  have h : 4 * m ≤ (interval m q).low + 2 := by
    unfold interval
    dsimp only
    split <;> omega
  exact_mod_cast h

theorem high_eq (m : Nat) (q : Int) : ((interval m q).high : ℚ) = 4 * m + 2 := by
  unfold interval
  push_cast
  rfl

theorem open_of_odd {m : Nat} (q : Int) (h : m % 2 = 1) : (interval m q).closed = false := by
  unfold interval
  simp [h]

/-- **Of two doubles with one exponent**, the intervals meet at most at a common end, which one of them
    does not have: of two neighbours one is odd. -/
theorem Interval.Has.not_lt {m m' : Nat} {q : Int} {w : ℚ} (h : (interval m q).Has w)
    (h' : (interval m' q).Has w) : ¬ m < m' := by
  intro hlt
  have hhigh := h.within.2
  have hlow := h'.within.1
  have hend := le_low m' q
  rw [high_eq] at hhigh
  by_cases hnext : m' = m + 1
  · subst hnext
    push_cast at hend
    rcases Nat.mod_two_eq_zero_or_one m with heven | hodd
    · have hopen := (h'.strict (open_of_odd q (by omega))).1
      linarith
    · have hopen := (h.strict (open_of_odd q hodd)).2
      rw [high_eq] at hopen
      linarith
  · have hfar : (m : ℚ) + 2 ≤ m' := by exact_mod_cast (show m + 2 ≤ m' by omega)
    linarith

/-- **Of two doubles with different exponents**, that with the greater one lies higher: the ends meet at
    most where the mantissa is the greatest of its exponent, which is odd. -/
theorem Rounds.not_lt {m m' : Nat} {q q' : Int} {v : ℚ} (hc : Canonical m q) (hc' : Canonical m' q')
    (h : Rounds m q v) (h' : Rounds m' q' v) : ¬ q < q' := by
  intro hlt
  have hscale : v / 2 ^ (q - 2) = v / 2 ^ (q' - 2) * 2 ^ (q' - q) := by
    rw [div_mul_eq_mul_div, show q' - 2 = (q - 2) + (q' - q) by ring, zpow_add₀ two_ne_zero,
      mul_div_mul_right _ _ (zpow_ne_zero _ two_ne_zero)]
  have hlow : (2 : ℚ) ^ 54 - 1 ≤ v / 2 ^ (q' - 2) := by
    have hleast := hc'.normal.resolve_left (by have := hc.least; omega)
    have hnat : 2 ^ 54 ≤ (interval m' q').low + 1 := by
      unfold interval
      dsimp only
      split
      · omega
      · next hne =>
        have hnot : m' ≠ 2 ^ 52 := fun heq => hne ⟨heq, by have := hc.least; omega⟩
        omega
    have hcast : (2 : ℚ) ^ 54 ≤ (interval m' q').low + 1 := by exact_mod_cast hnat
    have hwithin := Interval.Has.within (show (interval m' q').Has _ from h')
    linarith
  have htwice : 2 * (v / 2 ^ (q' - 2)) ≤ v / 2 ^ (q - 2) := by
    have htwo : (2 : ℚ) ≤ 2 ^ (q' - q) := by
      calc (2 : ℚ) = 2 ^ (1 : ℤ) := (zpow_one 2).symm
        _ ≤ 2 ^ (q' - q) := zpow_le_zpow_right₀ (by norm_num) (by omega)
    rw [hscale, mul_comm]
    exact mul_le_mul_of_nonneg_left htwo (le_trans (by norm_num) hlow)
  by_cases hlast : m = 2 ^ 53 - 1
  · have hhigh := (Interval.Has.strict (show (interval m q).Has _ from h)
      (open_of_odd q (by rw [hlast]; decide))).2
    rw [high_eq, hlast] at hhigh
    norm_num at hhigh hlow htwice
    linarith
  · have hhigh := (Interval.Has.within (show (interval m q).Has _ from h)).2
    rw [high_eq] at hhigh
    have hm : (m : ℚ) + 2 ≤ 2 ^ 53 := by
      exact_mod_cast (show m + 2 ≤ 2 ^ 53 by have := hc.mantissa; omega)
    linarith

/-- **No real rounds to two doubles.** -/
theorem rounds_unique {m m' : Nat} {q q' : Int} {v : ℚ} (hc : Canonical m q) (hc' : Canonical m' q')
    (h : Rounds m q v) (h' : Rounds m' q' v) : m = m' ∧ q = q' := by
  obtain rfl : q = q' := le_antisymm (not_lt.mp (h'.not_lt hc' hc h)) (not_lt.mp (h.not_lt hc hc' h'))
  exact ⟨le_antisymm (not_lt.mp (Interval.Has.not_lt h' h)) (not_lt.mp (Interval.Has.not_lt h h')),
    rfl⟩

/-! ## 2. Grids -/

theorem pow_toNat_eq {b : ℚ} (hb : b ≠ 0) (k : Int) : b ^ k.toNat = b ^ k * b ^ (-k).toNat := by
  rw [← zpow_natCast, ← zpow_natCast, ← zpow_add₀ hb]
  congr 1
  omega

theorem scale_pos (q k : Int) : (0 : ℚ) < scale q k := by
  unfold scale
  exact_mod_cast Nat.mul_pos (Nat.pow_pos (by decide)) (Nat.pow_pos (by decide))

/-- **A step of a grid in the common unit.** -/
theorem unit_eq (q k : Int) : (unit q k : ℚ) = 10 ^ k / 2 ^ (q - 2) * scale q k := by
  have htwo : (2 : ℚ) ^ (2 - q) = (2 ^ (q - 2))⁻¹ := by
    rw [← zpow_neg]
    congr 1
    omega
  have hunit : (unit q k : ℚ) = 10 ^ k.toNat * 2 ^ (2 - q).toNat := by
    unfold unit
    push_cast [Nat.pow_eq]
    rfl
  have hscale : (scale q k : ℚ) = 10 ^ (-k).toNat * 2 ^ (-(2 - q)).toNat := by
    unfold scale
    rw [show -(2 - q) = q - 2 by omega]
    push_cast [Nat.pow_eq]
    rfl
  rw [hunit, hscale, pow_toNat_eq (by norm_num) k, pow_toNat_eq (by norm_num) (2 - q), htwo]
  ring

/-- A multiple of a power of ten against quarters of the spacing. -/
theorem mul_unit_le_iff (x y : Nat) (q k : Int) :
    x * unit q k ≤ y * scale q k ↔ (x : ℚ) * 10 ^ k / 2 ^ (q - 2) ≤ y := by
  rw [← Nat.cast_le (α := ℚ), Nat.cast_mul, Nat.cast_mul, unit_eq, ← mul_assoc,
    mul_le_mul_iff_of_pos_right (scale_pos q k), mul_div_assoc]

theorem le_mul_unit_iff (x y : Nat) (q k : Int) :
    y * scale q k ≤ x * unit q k ↔ (y : ℚ) ≤ (x : ℚ) * 10 ^ k / 2 ^ (q - 2) := by
  rw [← Nat.cast_le (α := ℚ), Nat.cast_mul, Nat.cast_mul, unit_eq, ← mul_assoc,
    mul_le_mul_iff_of_pos_right (scale_pos q k), mul_div_assoc]

/-- **What is inside on a grid rounds to the double.** -/
theorem rounds_of_between {m x : Nat} {q k : Int}
    (h : between (interval m q).closed ((interval m q).low * scale q k) (x * unit q k)
      ((interval m q).high * scale q k) = true) : Rounds m q (x * 10 ^ k) := by
  unfold Rounds Interval.Has
  unfold between at h
  split at h
  · next hclosed =>
    rw [Bool.and_eq_true, decide_eq_true_eq, decide_eq_true_eq, le_mul_unit_iff,
      mul_unit_le_iff] at h
    rwa [if_pos hclosed]
  · next hopen =>
    rw [Bool.and_eq_true, decide_eq_true_eq, decide_eq_true_eq, ← not_le, ← not_le,
      mul_unit_le_iff, le_mul_unit_iff, not_le, not_le] at h
    rwa [if_neg hopen]

/-- The number at the foot of the grid step in which a double lies. -/
def foot (m : Nat) (q k : Int) : Nat := 4 * m * scale q k / unit q k

/-- Whether a multiple of a power of ten is inside the interval of a double. -/
def insideGrid (m : Nat) (q k : Int) (x : Nat) : Bool :=
  between (interval m q).closed ((interval m q).low * scale q k) (x * unit q k)
    ((interval m q).high * scale q k)

/-- What is found is the foot or the next step, whichever is inside. -/
theorem onGrid_eq_some {tie : Tie} {m d : Nat} {q k : Int} (h : onGrid tie m q k = some d) :
    insideGrid m q k d = true := by
  unfold onGrid at h
  dsimp only at h
  split at h
  case h_1 => cases h
  case h_2 hin _ =>
    cases h
    exact hin
  case h_3 _ hin =>
    cases h
    exact hin
  case h_4 hin hnext =>
    split at h
    · cases h
      exact hin
    · cases h
      exact hnext
    · cases h
      exact hnext
    · cases h
      split
      · exact hin
      · exact hnext

theorem onGrid_rounds {tie : Tie} {m d : Nat} {q k : Int} (h : onGrid tie m q k = some d) :
    Rounds m q (d * 10 ^ k) := rounds_of_between (onGrid_eq_some h)

theorem unit_pos (q k : Int) : 0 < unit q k :=
  Nat.mul_pos (Nat.pow_pos (by decide)) (Nat.pow_pos (by decide))

/-- The step above the foot is inside where a step is less than half the spacing. -/
theorem inside_above {m : Nat} {q k : Int} (h : unit q k < 2 * scale q k) :
    insideGrid m q k (foot m q k + 1) = true := by
  have habove : 4 * m * scale q k < (foot m q k + 1) * unit q k := by
    rw [mul_comm (foot m q k + 1)]
    exact Nat.lt_mul_div_succ _ (unit_pos q k)
  have hbelow : foot m q k * unit q k ≤ 4 * m * scale q k := Nat.div_mul_le_self _ _
  have hlow : (interval m q).low * scale q k ≤ 4 * m * scale q k := by
    refine Nat.mul_le_mul_right _ ?_
    unfold interval
    dsimp only
    split <;> omega
  have hhigh : (foot m q k + 1) * unit q k < (interval m q).high * scale q k := by
    calc (foot m q k + 1) * unit q k = foot m q k * unit q k + unit q k := by ring
      _ < 4 * m * scale q k + 2 * scale q k := by omega
      _ = (interval m q).high * scale q k := by
        show _ = (4 * m + 2) * scale q k
        ring
  unfold insideGrid between
  split
  · simp only [Bool.and_eq_true, decide_eq_true_eq]
    omega
  · simp only [Bool.and_eq_true, decide_eq_true_eq]
    omega

/-- **Something is found on a grid** that is finer than half the spacing. -/
theorem onGrid_isSome (tie : Tie) {m : Nat} {q k : Int} (h : unit q k < 2 * scale q k) :
    (onGrid tie m q k).isSome = true := by
  have habove := inside_above (m := m) h
  unfold onGrid
  dsimp only
  split
  case h_1 _ hnot => exact absurd (hnot.symm.trans habove) Bool.false_ne_true
  case h_2 => rfl
  case h_3 => rfl
  case h_4 => split <;> rfl

/-- **What is found on ever finer grids was found on one of them**, if the last holds something. -/
theorem firstGrid_eq (tie : Tie) (m : Nat) (q k : Int) (n : Nat)
    (h : (onGrid tie m q (k - n)).isSome = true) :
    ∃ d k', firstGrid tie m q k (n + 1) = (d, k') ∧ onGrid tie m q k' = some d := by
  induction n generalizing k with
  | zero =>
    obtain ⟨d, hd⟩ := Option.isSome_iff_exists.mp h
    rw [Nat.cast_zero, sub_zero] at hd
    refine ⟨d, k, ?_, hd⟩
    rw [firstGrid, hd]
  | succ n ih =>
    rw [firstGrid]
    cases hd : onGrid tie m q k with
    | some d => exact ⟨d, k, rfl, hd⟩
    | none => exact ih (k - 1) (by rwa [show k - 1 - (n : Int) = k - ((n + 1 : Nat) : Int) by omega])

/-- Seventeen digits, and some more, are finer than half the spacing of a double with a fraction. -/
theorem finest_power : ∀ n : Fin 1075, 0 < n.val →
    2 ^ (n.val + 1) < 10 ^ (19 - coarsestGrid (52 - n.val)).toNat := by
  decide +kernel

theorem coarsestGrid_mono {b c : Int} (h : b ≤ c) : coarsestGrid b ≤ coarsestGrid c := by
  unfold coarsestGrid
  omega

/-- **The last grid that is tried is fine enough** for a double with a fraction. -/
theorem finest_grid {m : Nat} {q : Int} (hc : Canonical m q) (hq : q < 0) :
    unit q (coarsestGrid (Nat.log2 m + q) - 19)
      < 2 * scale q (coarsestGrid (Nat.log2 m + q) - 19) := by
  have hlog : (Nat.log2 m : Int) ≤ 52 := by
    by_cases hm : m = 0
    · rw [hm]
      decide
    · have := (Nat.log2_lt hm).mpr hc.mantissa
      omega
  have hleast := hc.least
  unfold leastExponent at hleast
  obtain ⟨n, rfl⟩ : ∃ n : Nat, q = -n := ⟨q.natAbs, by omega⟩
  have hpower := finest_power ⟨n, by omega⟩ (by show 0 < n; omega)
  have hgrid : coarsestGrid (Nat.log2 m + -n) ≤ coarsestGrid (52 - n) := coarsestGrid_mono (by omega)
  have hneg : coarsestGrid (52 - n) ≤ 17 := by
    unfold coarsestGrid
    omega
  have hpowers : (10 : ℚ) ^ (coarsestGrid (Nat.log2 m + -n) - 19) < 2 * 2 ^ ((-n : Int) - 2) := by
    calc (10 : ℚ) ^ (coarsestGrid (Nat.log2 m + -n) - 19)
        ≤ 10 ^ (coarsestGrid (52 - n) - 19) := zpow_le_zpow_right₀ (by norm_num) (by omega)
      _ = ((10 : ℚ) ^ (19 - coarsestGrid (52 - n)).toNat)⁻¹ := by
        rw [← zpow_natCast, ← zpow_neg]
        congr 1
        omega
      _ < ((2 : ℚ) ^ (n + 1))⁻¹ := by
        refine inv_strictAnti₀ (by positivity) ?_
        exact_mod_cast hpower
      _ = 2 * 2 ^ ((-n : Int) - 2) := by
        rw [← zpow_natCast, ← zpow_neg, ← zpow_one_add₀ two_ne_zero]
        congr 1
        push_cast
        ring
  have hunit : (unit (-n) (coarsestGrid (Nat.log2 m + -n) - 19) : ℚ)
      < 2 * scale (-n) (coarsestGrid (Nat.log2 m + -n) - 19) := by
    rw [unit_eq]
    refine mul_lt_mul_of_pos_right ?_ (scale_pos _ _)
    rwa [div_lt_iff₀ (by positivity)]
  exact_mod_cast hunit

/-- **The shortest decimal of a double with a fraction rounds to it.** -/
theorem shortest_rounds (tie : Tie) {m : Nat} {q : Int} (hc : Canonical m q) (hq : q < 0) :
    Rounds m q ((shortest tie m q).1 * 10 ^ (shortest tie m q).2) := by
  obtain ⟨d, k, hshortest, hgrid⟩ :=
    firstGrid_eq tie m q (coarsestGrid (Nat.log2 m + q)) 19 (onGrid_isSome tie (finest_grid hc hq))
  rw [shortest, hshortest]
  exact onGrid_rounds hgrid

/-- A double rounds to itself. -/
theorem rounds_self (m : Nat) (q : Int) : Rounds m q (m * 2 ^ q) := by
  have hmiddle : (m : ℚ) * 2 ^ q / 2 ^ (q - 2) = (4 * m : Nat) := by
    rw [mul_div_assoc, ← zpow_sub₀ two_ne_zero, show q - (q - 2) = 2 by omega]
    push_cast
    ring
  have hlow : (interval m q).low ≤ 4 * m ∧ (m % 2 = 1 → (interval m q).low < 4 * m) := by
    unfold interval
    dsimp only
    split <;> omega
  have hhigh : 4 * m < (interval m q).high := Nat.lt_add_of_pos_right (by decide)
  unfold Rounds Interval.Has
  rw [hmiddle]
  split
  · exact ⟨by exact_mod_cast hlow.1, by exact_mod_cast hhigh.le⟩
  · next hopen =>
    have hodd : m % 2 = 1 := by
      have hne : ¬ m % 2 = 0 := fun heven => hopen (decide_eq_true heven)
      omega
    exact ⟨by exact_mod_cast hlow.2 hodd, by exact_mod_cast hhigh⟩

end Lox.Decimal
