import Mathlib
import Lox.Decimal.Binary
import Lox.Decimal.Reading

/-!
# Doubles and what they stand for

* `parts_injective`: **a double that is a number is what it stands for**, and no other stands for it.
* `Canonical`: the mantissas and exponents of doubles. `canonical_of_parts`: those of a double are.
* `parts_nearest`: **a decimal is near to some number**, or past all of them.
-/

namespace Lox.Decimal

/-! ## 1. Bits -/

/-- Two doubles with the same bits are one. -/
theorem toBits_injective {x y : Float} (h : x.toBits = y.toBits) : x = y := by
  obtain ⟨⟨a, ha⟩⟩ := x
  obtain ⟨⟨b, hb⟩⟩ := y
  obtain rfl : a = b := h
  rfl

/-- The sign, the exponent and the fraction of the bits of a double. -/
structure Fields where
  negative : Bool
  biased : Nat
  fraction : Nat

/-- The fields of some bits. -/
def fieldsOf (bits : Nat) : Fields where
  negative := decide (2 ^ 63 ≤ bits)
  biased := bits / 2 ^ 52 % 2 ^ 11
  fraction := bits % 2 ^ 52

/-- Bits are their fields. -/
theorem fieldsOf_injective {a b : Nat} (ha : a < 2 ^ 64) (hb : b < 2 ^ 64)
    (h : fieldsOf a = fieldsOf b) : a = b := by
  simp only [fieldsOf, Fields.mk.injEq, decide_eq_decide] at h
  obtain ⟨hsign, hbiased, hfraction⟩ := h
  omega

/-- What fields stand for. -/
def Fields.parts (f : Fields) : Parts :=
  if f.biased = 2047 then
    if f.fraction = 0 then .infinite f.negative else .nan
  else if f.biased = 0 then
    .finite f.negative f.fraction leastExponent
  else
    .finite f.negative (f.fraction + 2 ^ 52) ((f.biased : Int) - 1075)

theorem parts_eq (x : Float) : parts x = (fieldsOf x.toBits.toNat).parts := rfl

/-- **The mantissas and exponents of doubles.** -/
structure Canonical (m : Nat) (q : Int) : Prop where
  mantissa : m < 2 ^ 53
  least : leastExponent ≤ q
  greatest : q ≤ 971
  /-- A small mantissa stands only with the least exponent. -/
  normal : q = leastExponent ∨ 2 ^ 52 ≤ m

theorem Fields.canonical {f : Fields} {negative : Bool} {m : Nat} {q : Int} (hb : f.biased < 2048)
    (hf : f.fraction < 2 ^ 52) (h : f.parts = .finite negative m q) : Canonical m q := by
  unfold Fields.parts at h
  split at h
  · split at h <;> cases h
  · split at h
    · cases h
      exact ⟨by omega, Int.le_refl _, by decide, .inl rfl⟩
    · cases h
      refine ⟨by omega, ?_, by omega, .inr (Nat.le_add_left _ _)⟩
      unfold leastExponent
      omega

theorem biased_lt (bits : Nat) : (fieldsOf bits).biased < 2048 := Nat.mod_lt _ (by decide)

theorem fraction_lt (bits : Nat) : (fieldsOf bits).fraction < 2 ^ 52 := Nat.mod_lt _ (by decide)

theorem canonical_of_parts {x : Float} {negative : Bool} {m : Nat} {q : Int}
    (h : parts x = .finite negative m q) : Canonical m q := by
  rw [parts_eq] at h
  exact Fields.canonical (biased_lt _) (fraction_lt _) h

/-- The fields of what a double stands for. -/
def Parts.fields : Parts → Fields
  | .nan => ⟨false, 2047, 1⟩
  | .infinite negative => ⟨negative, 2047, 0⟩
  | .finite negative m q =>
    if m < 2 ^ 52 then ⟨negative, 0, m⟩ else ⟨negative, (q + 1075).toNat, m - 2 ^ 52⟩

/-- Fields that stand for a number, or for a side past all of them, are told by it. -/
theorem Fields.fields_parts {f : Fields} (hf : f.fraction < 2 ^ 52) (hne : f.parts ≠ .nan) :
    f.parts.fields = f := by
  obtain ⟨negative, biased, fraction⟩ := f
  dsimp only at hf
  unfold Fields.parts at hne ⊢
  dsimp only at hne ⊢
  split at hne
  case isTrue hbiased =>
    split at hne
    case isTrue hfraction => rw [if_pos hbiased, if_pos hfraction, Parts.fields, hbiased, hfraction]
    case isFalse => exact absurd rfl hne
  case isFalse hbiased =>
    rw [if_neg hbiased]
    split
    case isTrue hzero => rw [Parts.fields, if_pos hf, hzero]
    case isFalse =>
      rw [Parts.fields, if_neg (by omega), Nat.add_sub_cancel,
        show ((biased : Int) - 1075 + 1075).toNat = biased by omega]

/-- **A double that is a number, or past all of them, is what it stands for.** -/
theorem parts_injective {x y : Float} (hne : parts x ≠ .nan) (h : parts x = parts y) : x = y := by
  have hfields : fieldsOf x.toBits.toNat = fieldsOf y.toBits.toNat := by
    rw [parts_eq] at hne
    rw [parts_eq, parts_eq] at h
    rw [← Fields.fields_parts (fraction_lt _) hne, h, Fields.fields_parts (fraction_lt _) (h ▸ hne)]
  have hbits := fieldsOf_injective x.toBits.toNat_lt y.toBits.toNat_lt hfields
  exact toBits_injective (UInt64.toNat_inj.mp hbits)

/-! ## 2. Decimals read as doubles -/

open Float.Model (UnpackedFloat)
open Float.Model.UnpackedFloat (pack unpackExponent unpackMantissa)

/-- **What is packed is a number if it was one.** -/
theorem pack_ne_nan {spec : Float.Model.Format} {f : UnpackedFloat} (h : f ≠ .notANumber)
    (hexponent : unpackExponent (pack spec f) = -1#_) : unpackMantissa (pack spec f) = 0#_ := by
  revert hexponent
  fun_cases pack with
  | case1 => exact absurd rfl h
  | case2 s => simp [Float.Model.UnpackedFloat.packedInfinity]
  | case3 s => simp [Float.Model.UnpackedFloat.packedZero]
  | case4 s m e hm biasedExponent h => simp [Float.Model.UnpackedFloat.packedInfinity]
  | case5 s m e hm actualMantissaBits biasedExponent h₁ h₂ =>
    -- no exponent of a number is the greatest
    have hlt : biasedExponent < 2 ^ spec.exponentBits - 1 := by omega
    intro hall
    have hmod : biasedExponent % 2 ^ spec.exponentBits = 2 ^ spec.exponentBits - 1 := by
      simpa [BitVec.neg_one_eq_allOnes, ← BitVec.toNat_inj] using hall
    rw [Nat.mod_eq_of_lt (by omega)] at hmod
    omega
  | case6 s m e hm actualMantissaBits biasedExponent h₁ h₂ =>
    intro hall
    simp [Nat.pos_iff_ne_zero.1 spec.he] at hall

/-- **A double that is a number**, or past all of them. -/
def IsNumber (x : Float) : Prop := x.toModel.unpack ≠ .notANumber

theorem isNumber_pack {f : UnpackedFloat} (h : f ≠ .notANumber) :
    IsNumber (.ofModel (.pack f)) := by
  unfold IsNumber Float.Model.unpack UnpackedFloat.unpack
  dsimp only [Float.Model.pack]
  split
  case isTrue hexponent =>
    rw [if_pos (pack_ne_nan h hexponent)]
    exact UnpackedFloat.noConfusion
  case isFalse =>
    split
    · split <;> exact UnpackedFloat.noConfusion
    · exact UnpackedFloat.noConfusion

theorem toNat_unpackExponent (bits : BitVec 64) :
    (@unpackExponent .binary64 bits).toNat = (fieldsOf bits.toNat).biased := by
  simp [unpackExponent, fieldsOf, Nat.shiftRight_eq_div_pow]

theorem toNat_unpackMantissa (bits : BitVec 64) :
    (@unpackMantissa .binary64 bits).toNat = (fieldsOf bits.toNat).fraction := by
  simp [unpackMantissa, fieldsOf]

theorem IsNumber.parts_ne_nan {x : Float} (h : IsNumber x) : parts x ≠ .nan := by
  intro hnan
  rw [parts_eq] at hnan
  unfold Fields.parts at hnan
  split at hnan
  case isTrue hbiased =>
    split at hnan
    case isTrue => cases hnan
    case isFalse hfraction =>
      refine h ?_
      have hexponent : @unpackExponent .binary64 x.toBits.toBitVec = -1#_ := by
        rw [← BitVec.toNat_inj, toNat_unpackExponent]
        exact hbiased
      have hmantissa : @unpackMantissa .binary64 x.toBits.toBitVec ≠ 0#_ := by
        rw [ne_eq, ← BitVec.toNat_inj, toNat_unpackMantissa]
        exact hfraction
      show UnpackedFloat.unpack .binary64 x.toBits.toBitVec = _
      rw [UnpackedFloat.unpack, if_pos hexponent, if_neg hmantissa]
  case isFalse => split at hnan <;> cases hnan

theorem roundWithAccuracy_ne_nan (spec : Float.Model.Format) (s : UnpackedFloat.Sign) (m : Nat)
    (e : Int) (a : UnpackedFloat.Accuracy) :
    UnpackedFloat.roundWithAccuracy spec s m e a ≠ .notANumber := by
  unfold UnpackedFloat.roundWithAccuracy
  dsimp only
  split <;> exact UnpackedFloat.noConfusion

/-- Whether it is a number other than zero, and not past all of them. -/
def isNonzero : UnpackedFloat → Bool
  | .finite .. => true
  | _ => false

/-- Multiplication and division. -/
inductive Scaling (spec : Float.Model.Format) :
    (UnpackedFloat → UnpackedFloat → UnpackedFloat) → Prop where
  | mul : Scaling spec (UnpackedFloat.mul spec)
  | div : Scaling spec (UnpackedFloat.div spec)

/-- A number times or divided by one that is neither zero nor past all numbers. -/
theorem Scaling.ne_nan {spec : Float.Model.Format} {op : UnpackedFloat → UnpackedFloat → UnpackedFloat}
    (hop : Scaling spec op) {f g : UnpackedFloat} (hf : f ≠ .notANumber) (hg : isNonzero g = true) :
    op f g ≠ .notANumber := by
  cases g with
  | infinity | notANumber | zero => cases hg
  | finite =>
    cases f with
    | notANumber => exact absurd rfl hf
    | infinity | zero => cases hop <;> exact UnpackedFloat.noConfusion
    | finite => cases hop <;> exact roundWithAccuracy_ne_nan _ _ _ _ _

theorem ofScientific_ne_nan (spec : Float.Model.Format) (m : Nat) (e : Int) :
    UnpackedFloat.ofScientific spec m e ≠ .notANumber := by
  unfold UnpackedFloat.ofScientific
  repeat' split
  all_goals first
    | exact UnpackedFloat.noConfusion
    | exact Scaling.mul.ne_nan UnpackedFloat.noConfusion rfl
    | exact Scaling.div.ne_nan UnpackedFloat.noConfusion rfl

theorem powers_nonzero : ∀ e : Fin Float.exactlyRepresentablePowersOfTen.size,
    isNonzero Float.exactlyRepresentablePowersOfTen[e].toModel.unpack = true := by
  decide +kernel

theorem ofNat_ne_nan (spec : Float.Model.Format) (n : Nat) :
    UnpackedFloat.ofNat spec n ≠ .notANumber := by
  unfold UnpackedFloat.ofNat UnpackedFloat.ofInt UnpackedFloat.normalize
  split
  · exact roundWithAccuracy_ne_nan _ _ _ _ _
  · exact UnpackedFloat.noConfusion
  · exact roundWithAccuracy_ne_nan _ _ _ _ _

theorem IsNumber.mul {x y : Float} (h : IsNumber x) (hy : isNonzero y.toModel.unpack = true) :
    IsNumber (x * y) := isNumber_pack (Scaling.mul.ne_nan h hy)

theorem IsNumber.div {x y : Float} (h : IsNumber x) (hy : isNonzero y.toModel.unpack = true) :
    IsNumber (x / y) := isNumber_pack (Scaling.div.ne_nan h hy)

/-- **A decimal is read as a number**, or as one past all of them. -/
theorem isNumber_ofScientific (m : Nat) (negative : Bool) (e : Nat) :
    IsNumber (Float.ofScientific m negative e) := by
  unfold Float.ofScientific
  split
  case isTrue h =>
    have hpower := powers_nonzero ⟨e, Nat.lt_succ_of_le h.2⟩
    have hwhole : IsNumber m.toUInt64.toFloat := isNumber_pack (ofNat_ne_nan _ _)
    dsimp only
    split
    · exact hwhole.div hpower
    · exact hwhole.mul hpower
  case isFalse => exact isNumber_pack (ofScientific_ne_nan _ _ _)

/-- **The double nearest to a decimal is a number**, or past all of them. -/
theorem parts_nearest (m : Nat) (k : Int) : parts (nearest m k) ≠ .nan := by
  unfold nearest
  dsimp only
  split
  · exact (isNumber_ofScientific 0 false 0).parts_ne_nan
  · split
    · decide +kernel
    · exact (isNumber_ofScientific _ _ _).parts_ne_nan

end Lox.Decimal
