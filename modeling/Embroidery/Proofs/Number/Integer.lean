/-
  Integers among the doubles, and the words that spell them.

  An integer whose count of units fits is a double (`Binary64.Holds`).  Comparisons and conversions
  of such integers are those of the integers, and their decimal digits read as what they are
  (`readNumber_integerChars`).

  Cutting a double to a signed integer of 64 bits gives such an integer, unless the double is too
  large (`Binary64.holds_toInt64`): a double is a whole number or small, and either way its whole
  part is a double.  The largest integer of 64 bits is none; but the double next to it is cut to it,
  so every integer that was cut from a double is cut from the double that its digits spell
  (`Binary64.toInt64_ofInt_toInt64`).
-/
import Embroidery.Proofs.Number.Rounding

namespace Embroidery

-- Powers of naturals are those of core, whatever other instances are at hand.
attribute [local instance (2000)] instPowNat

/-- The whole part of a double is a double. -/
theorem fits_wholePart {units : Nat} (h : Fits units) : Fits (units / unitsInOne * unitsInOne) := by
  rcases whole_or_small h with ⟨k, rfl⟩ | hsmall
  · rw [Nat.mul_div_cancel_left k unitsInOne_pos, Nat.mul_comm]
    exact h
  · have hwhole : units / unitsInOne < 2 ^ (52 : Nat) :=
      (Nat.div_lt_iff_lt_mul unitsInOne_pos).2 hsmall
    exact fits_whole (by omega)

namespace Binary64

variable {i j : Int}

/-- The integer is a double. -/
def Holds (i : Int) : Prop := Fits (i.natAbs * unitsInOne)

theorem holds_of_natAbs_le (h : i.natAbs ≤ 2 ^ (53 : Nat)) : Holds i := fits_whole h

theorem ofInt_eq (h : Holds i) :
    ofInt i = .finite (decide (i < 0)) (i.natAbs * unitsInOne) h :=
  ofQuotient_of_fits _ h

theorem ofInt_natCast (n : Nat) : ofInt n = ofNat n := by
  have hsign : decide ((n : Int) < 0) = false := decide_eq_false (by omega)
  rw [ofInt, hsign, Int.natAbs_natCast]
  rfl

theorem isFinite_ofInt (h : Holds i) : (ofInt i).isFinite = true := by
  rw [ofInt_eq h]
  rfl

/-! ## Comparison -/

theorem signed_natAbs (i : Int) (factor : Nat) :
    signed (decide (i < 0)) (i.natAbs * factor) = i * factor := by
  by_cases h : i < 0
  · rw [decide_eq_true h, signed, if_pos rfl, Int.natCast_mul, Int.ofNat_natAbs_of_nonpos (by omega),
      Int.neg_mul, Int.neg_neg]
  · rw [decide_eq_false h, signed_false, Int.natCast_mul, Int.natAbs_of_nonneg (by omega)]

theorem lt_ofInt_iff (hi : Holds i) (hj : Holds j) : ofInt i < ofInt j ↔ i < j := by
  have hpos : (0 : Int) < unitsInOne := Int.natCast_pos.2 unitsInOne_pos
  show lt (ofInt i) (ofInt j) = true ↔ i < j
  rw [ofInt_eq hi, ofInt_eq hj]
  simp only [lt, decide_eq_true_eq, signed_natAbs]
  exact Int.mul_lt_mul_right hpos

theorem eq_ofInt_iff (hi : Holds i) (hj : Holds j) : (ofInt i).eq (ofInt j) = true ↔ i = j := by
  have hne : (unitsInOne : Int) ≠ 0 := Int.natCast_ne_zero.2 (Nat.ne_of_gt unitsInOne_pos)
  rw [ofInt_eq hi, ofInt_eq hj]
  simp only [eq, decide_eq_true_eq, signed_natAbs]
  exact Int.mul_eq_mul_right_iff hne

theorem ofNat_lt_finite_iff {n units : Nat} (hn : n ≤ 2 ^ (53 : Nat)) {fits : Fits units} :
    ofNat n < .finite false units fits ↔ n * unitsInOne < units := by
  show lt (ofNat n) (.finite false units fits) = true ↔ _
  rw [ofNat_eq hn]
  simp only [lt, decide_eq_true_eq, signed_false, Int.ofNat_lt]

theorem finite_lt_ofNat_iff {n units : Nat} (hn : n ≤ 2 ^ (53 : Nat)) {fits : Fits units} :
    Binary64.finite false units fits < ofNat n ↔ units < n * unitsInOne := by
  show lt (.finite false units fits) (ofNat n) = true ↔ _
  rw [ofNat_eq hn]
  simp only [lt, decide_eq_true_eq, signed_false, Int.ofNat_lt]

theorem finite_eq_ofNat_iff {n units : Nat} (hn : n ≤ 2 ^ (53 : Nat)) {fits : Fits units} :
    (Binary64.finite false units fits).eq (ofNat n) = true ↔ units = n * unitsInOne := by
  rw [ofNat_eq hn]
  simp only [eq, decide_eq_true_eq, signed_false, Int.ofNat_inj]

/-- A number between two whole numbers is finite. -/
theorem of_between {v : Binary64} {m n : Nat} (hm : m ≤ 2 ^ (53 : Nat)) (hn : n ≤ 2 ^ (53 : Nat))
    (hlow : ofNat m < v) (hhigh : v < ofNat n) :
    ∃ units, ∃ fits : Fits units, v = .finite false units fits ∧ m * unitsInOne < units ∧
      units < n * unitsInOne := by
  cases v with
  | nan =>
    rw [ofNat_eq hm] at hlow
    exact Bool.noConfusion hlow
  | infinite negative =>
    rw [ofNat_eq hm] at hlow
    rw [ofNat_eq hn] at hhigh
    cases negative with
    | true => exact Bool.noConfusion hlow
    | false => exact Bool.noConfusion hhigh
  | finite negative units fits =>
    cases negative with
    | true =>
      rw [ofNat_eq hm] at hlow
      have hlt : ((m * unitsInOne : Nat) : Int) < -(units : Int) := of_decide_eq_true hlow
      omega
    | false =>
      exact ⟨units, fits, rfl, (ofNat_lt_finite_iff hm).1 hlow, (finite_lt_ofNat_iff hn).1 hhigh⟩

/-! ## Whole parts -/

theorem toNat_toUInt8 (negative : Bool) {units : Nat} (fits : Fits units) :
    (Binary64.finite negative units fits).toUInt8.toNat =
      (max 0 (min 255 (signed negative (units / unitsInOne)))).toNat := by
  simp only [toUInt8, toIntWithin, UInt8.toNat_ofNat']
  omega

/-- Dropping the fraction does not go up past a whole number. -/
theorem signed_div_le {negative : Bool} {units n : Nat}
    (h : signed negative units ≤ (n * unitsInOne : Nat)) :
    signed negative (units / unitsInOne) ≤ n := by
  cases negative with
  | true =>
    generalize units / unitsInOne = whole
    simp only [signed, if_true]
    omega
  | false =>
    have hle : units ≤ n * unitsInOne := Int.ofNat_le.1 h
    exact Int.ofNat_le.2 (Nat.div_le_of_le_mul (by rw [Nat.mul_comm]; exact hle))

/-- What is cut to a signed integer of 64 bits is one. -/
theorem toInt64_mem (v : Binary64) :
    Int64.minValue.toInt ≤ v.toInt64 ∧ v.toInt64 ≤ Int64.maxValue.toInt := by
  have hbounds : Int64.minValue.toInt ≤ Int64.maxValue.toInt := by decide
  cases v with
  | nan => decide
  | infinite negative => cases negative <;> decide
  | finite negative units fits =>
    simp only [toInt64, toIntWithin]
    omega

theorem toInt64_ofInt (h : Holds i) (hlow : Int64.minValue.toInt ≤ i)
    (hhigh : i ≤ Int64.maxValue.toInt) : (ofInt i).toInt64 = i := by
  have hsigned := signed_natAbs i 1
  rw [Nat.mul_one, Int.natCast_one, Int.mul_one] at hsigned
  rw [ofInt_eq h]
  simp only [toInt64, toIntWithin, Nat.mul_div_cancel _ unitsInOne_pos, hsigned]
  omega

/-- A double that is cut to an integer gives a double, or the largest integer. -/
theorem holds_toInt64 (v : Binary64) : Holds v.toInt64 ∨ v.toInt64 = Int64.maxValue.toInt := by
  have hmin : Holds Int64.minValue.toInt := by
    have hunits : Int64.minValue.toInt.natAbs * unitsInOne = 2 ^ (63 + binaryPlaces) := by
      have hsize : Int64.minValue.toInt.natAbs = 2 ^ (63 : Nat) := by decide
      unfold unitsInOne
      rw [hsize, Nat.pow_add]
    rw [Holds, hunits]
    exact fits_two_pow (by omega)
  cases v with
  | nan => exact .inl (holds_of_natAbs_le (by decide))
  | infinite negative =>
    cases negative with
    | true => exact .inl hmin
    | false => exact .inr rfl
  | finite negative units fits =>
    have hwhole := fits_wholePart fits
    simp only [toInt64, toIntWithin]
    generalize units / unitsInOne = whole at hwhole ⊢
    have hsize : (signed negative whole).natAbs = whole := by
      cases negative <;> simp [signed]
    -- between the bounds the whole part itself is left
    rcases Int.le_total Int64.maxValue.toInt (signed negative whole) with hhigh | hhigh
    · right
      have hbounds : Int64.minValue.toInt ≤ Int64.maxValue.toInt := by decide
      omega
    · left
      rw [Int.min_eq_right hhigh]
      rcases Int.le_total (signed negative whole) Int64.minValue.toInt with hlow | hlow
      · rw [Int.max_eq_left hlow]
        exact hmin
      · rw [Int.max_eq_right hlow, Holds, hsize]
        exact hwhole

/-- What was cut to an integer is cut to the same integer again. -/
theorem toInt64_ofInt_toInt64 (v : Binary64) : (ofInt v.toInt64).toInt64 = v.toInt64 := by
  rcases holds_toInt64 v with hholds | hmax
  · exact toInt64_ofInt hholds (toInt64_mem v).1 (toInt64_mem v).2
  · rw [hmax]
    decide +kernel

theorem isFinite_ofInt_toInt64 (v : Binary64) : (ofInt v.toInt64).isFinite = true := by
  rcases holds_toInt64 v with hholds | hmax
  · exact isFinite_ofInt hholds
  · rw [hmax]
    decide +kernel

end Binary64

/-- The digits of an integer read as the double nearest to it. -/
theorem readNumber_integerChars (i : Int) :
    readNumber (integerChars i) = some (Binary64.ofInt i) := by
  cases i with
  | ofNat n =>
    rw [integerChars, readNumber_naturalChars]
    exact congrArg some (Binary64.ofInt_natCast n).symm
  | negSucc n =>
    have hsign : decide (Int.negSucc n < 0) = true := decide_eq_true (Int.negSucc_lt_zero n)
    rw [Binary64.ofInt, hsign]
    exact readNumber_signedChars true (n + 1)

end Embroidery
