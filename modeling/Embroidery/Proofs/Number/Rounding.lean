/-
  How far rounding goes.

  A quotient is rounded to a multiple of its spacing, and every double beyond it lies on such a
  multiple too.  So rounding does not go past a double (`nearest_le`), it keeps the order of
  quotients (`nearest_mono`), and what is bounded by a finite double stays finite
  (`Binary64.ofQuotient_eq`).  It adds at most one part in 2^53 (`nearest_le_of_large`).
-/
import Embroidery.Proofs.Number.Whole

namespace Embroidery

-- Powers of naturals are those of core, whatever other instances are at hand.
attribute [local instance (2000)] instPowNat

/-! ## To a natural number -/

theorem roundHalfEven_cases (num den : Nat) :
    (roundHalfEven num den = num / den ∧ 2 * (num % den) ≤ den) ∨
      (roundHalfEven num den = num / den + 1 ∧ den ≤ 2 * (num % den)) := by
  unfold roundHalfEven
  dsimp only
  split
  · exact .inl ⟨rfl, by omega⟩
  · split
    · exact .inr ⟨rfl, by omega⟩
    · split
      · exact .inl ⟨rfl, by omega⟩
      · exact .inr ⟨rfl, by omega⟩

theorem div_le_roundHalfEven (num den : Nat) : num / den ≤ roundHalfEven num den := by
  rcases roundHalfEven_cases num den with ⟨h, -⟩ | ⟨h, -⟩ <;> omega

theorem roundHalfEven_le_of_le {num den bound : Nat} (hden : 0 < den) (h : num ≤ den * bound) :
    roundHalfEven num den ≤ bound := by
  rcases Nat.lt_or_eq_of_le h with hlt | rfl
  · exact roundHalfEven_le hlt
  · have hexact := roundHalfEven_of_dvd hden (Nat.dvd_mul_right den bound)
    rw [Nat.mul_div_cancel_left bound hden] at hexact
    exact Nat.le_of_eq hexact

theorem roundHalfEven_mono {num num' : Nat} (den : Nat) (h : num ≤ num') :
    roundHalfEven num den ≤ roundHalfEven num' den := by
  have hdiv : num / den ≤ num' / den := Nat.div_le_div_right h
  rcases Nat.lt_or_eq_of_le hdiv with hlt | heq
  · have hbelow : roundHalfEven num den ≤ num / den + 1 := by
      rcases roundHalfEven_cases num den with ⟨h, -⟩ | ⟨h, -⟩ <;> omega
    exact Nat.le_trans hbelow (Nat.le_trans hlt (div_le_roundHalfEven num' den))
  · -- with the same whole part the rests decide, and equal rests are treated alike
    have hmod := Nat.div_add_mod num den
    have hmod' := Nat.div_add_mod num' den
    rw [heq] at hmod
    have hrest : num % den ≤ num' % den := by omega
    rcases Nat.lt_or_eq_of_le hrest with hlt | hsame
    · rcases roundHalfEven_cases num den with ⟨hround, -⟩ | ⟨hround, hhalf⟩
      · rw [hround, heq]
        exact div_le_roundHalfEven num' den
      · rcases roundHalfEven_cases num' den with ⟨-, hhalf'⟩ | ⟨hround', -⟩ <;> omega
    · have hnum : num = num' := by omega
      exact Nat.le_of_eq (congrArg (roundHalfEven · den) hnum)

/-- The error is at most one half. -/
theorem roundHalfEven_error (num den : Nat) :
    2 * (den * roundHalfEven num den) ≤ 2 * num + den := by
  have hmod := Nat.div_add_mod num den
  rcases roundHalfEven_cases num den with ⟨h, -⟩ | ⟨h, hhalf⟩
  · rw [h]
    omega
  · rw [h, Nat.mul_add]
    omega

/-! ## To a count of units -/

theorem log2_le_log2 {m n : Nat} (h : m ≤ n) : m.log2 ≤ n.log2 := by
  by_cases hm : m = 0
  · rw [hm, Nat.log2_zero]
    exact Nat.zero_le _
  · exact (Nat.le_log2 (by omega)).2 (Nat.le_trans (Nat.log2_self_le hm) h)

theorem two_pow_dvd_self (e : Nat) : 2 ^ (((2 : Nat) ^ e).log2 - 52) ∣ 2 ^ e := by
  rw [Nat.log2_two_pow]
  exact Nat.pow_dvd_pow 2 (Nat.sub_le e 52)

theorem spacing_pos (num den : Nat) : 0 < spacing num den := Nat.two_pow_pos _

/-- A double that is not below a quotient lies on a multiple of its spacing. -/
theorem spacing_dvd {num den units : Nat} (hunits : 2 ^ (units.log2 - 52) ∣ units)
    (h : num / den ≤ units) : spacing num den ∣ units := by
  have hlog : (num / den).log2 ≤ units.log2 := log2_le_log2 h
  exact Nat.dvd_trans (Nat.pow_dvd_pow 2 (by omega)) hunits

/-- Rounding does not go up past a double. -/
theorem nearest_le {num den units : Nat} (hden : 0 < den)
    (hunits : 2 ^ (units.log2 - 52) ∣ units) (h : num ≤ den * units) :
    nearest num den ≤ units := by
  have hquotient : num / den ≤ units := by
    rw [← Nat.mul_div_cancel_left units hden]
    exact Nat.div_le_div_right h
  obtain ⟨k, rfl⟩ := spacing_dvd hunits hquotient
  have hround : roundHalfEven num (den * spacing num den) ≤ k := by
    refine roundHalfEven_le_of_le (Nat.mul_pos hden (spacing_pos num den)) ?_
    rw [Nat.mul_assoc]
    exact h
  rw [nearest, Nat.mul_comm (spacing num den)]
  exact Nat.mul_le_mul_right _ hround

/-- Rounding does not go down past a multiple of the spacing. -/
theorem le_nearest {num den units : Nat} (hden : 0 < den) (hunits : spacing num den ∣ units)
    (h : den * units ≤ num) : units ≤ nearest num den := by
  obtain ⟨k, rfl⟩ := hunits
  have hpos : 0 < den * spacing num den := Nat.mul_pos hden (spacing_pos num den)
  have hround : k ≤ roundHalfEven num (den * spacing num den) := by
    refine Nat.le_trans ?_ (div_le_roundHalfEven _ _)
    rw [Nat.le_div_iff_mul_le hpos, Nat.mul_comm, Nat.mul_assoc]
    exact h
  rw [nearest, Nat.mul_comm (spacing num den)]
  exact Nat.mul_le_mul_right _ hround

/-- Rounding keeps the order of quotients. -/
theorem nearest_mono {num num' den : Nat} (hden : 0 < den) (h : num ≤ num') :
    nearest num den ≤ nearest num' den := by
  have hlog : (num / den).log2 ≤ (num' / den).log2 := log2_le_log2 (Nat.div_le_div_right h)
  by_cases hsame : (num / den).log2 - 52 = (num' / den).log2 - 52
  · have hspacing : spacing num den = spacing num' den := by rw [spacing, spacing, hsame]
    rw [nearest, nearest, hspacing]
    exact Nat.mul_le_mul_right _ (roundHalfEven_mono _ h)
  · -- between them lies a power of two, which is a double
    have hne : num' / den ≠ 0 := by
      intro hzero
      rw [hzero, Nat.log2_zero] at hlog hsame
      omega
    have hbelow : num / den < 2 ^ (num' / den).log2 :=
      Nat.lt_of_lt_of_le Nat.lt_log2_self (Nat.pow_le_pow_right (by decide) (by omega))
    have habove : 2 ^ (num' / den).log2 ≤ num' / den := Nat.log2_self_le hne
    have hlow : nearest num den ≤ 2 ^ (num' / den).log2 := by
      refine nearest_le hden (two_pow_dvd_self _) (Nat.le_of_lt ?_)
      rw [Nat.mul_comm]
      exact (Nat.div_lt_iff_lt_mul hden).1 hbelow
    have hhigh : 2 ^ (num' / den).log2 ≤ nearest num' den := by
      refine le_nearest hden (Nat.pow_dvd_pow 2 (Nat.sub_le _ 52)) ?_
      rw [Nat.mul_comm]
      exact (Nat.le_div_iff_mul_le hden).1 habove
    exact Nat.le_trans hlow hhigh

/-- A quotient of at least 2^52 grows by at most one part in 2^53. -/
theorem nearest_le_of_large {num den : Nat} (hden : 0 < den) (h : 2 ^ (52 : Nat) ≤ num / den) :
    2 ^ (53 : Nat) * (den * nearest num den) ≤ (2 ^ (53 : Nat) + 1) * num := by
  have hlog : 52 ≤ (num / den).log2 := (Nat.le_log2 (by omega)).2 h
  have hspacing : 2 ^ (52 : Nat) * (den * spacing num den) ≤ num := by
    have hpower : 2 ^ (52 : Nat) * spacing num den ≤ num / den := by
      rw [spacing, ← Nat.pow_add, Nat.add_sub_cancel' hlog]
      exact Nat.log2_self_le (by omega)
    rw [Nat.mul_left_comm, Nat.mul_comm den]
    exact (Nat.le_div_iff_mul_le hden).1 hpower
  have herror := roundHalfEven_error num (den * spacing num den)
  have hnear : den * nearest num den =
      den * spacing num den * roundHalfEven num (den * spacing num den) := by
    rw [nearest, Nat.mul_comm (roundHalfEven _ _), Nat.mul_assoc]
  rw [hnear]
  generalize den * spacing num den * roundHalfEven num (den * spacing num den) = rounded at *
  omega

/-! ## Finite results -/

theorem fits_nearest {num den units : Nat} (hden : 0 < den) (hunits : Fits units)
    (h : num ≤ den * units) : Fits (nearest num den) :=
  ⟨Nat.lt_of_le_of_lt (nearest_le hden hunits.2 h) hunits.1, nearest_dvd num den⟩

theorem fits_two_pow {e : Nat} (h : e < 1024 + binaryPlaces) : Fits (2 ^ e) := by
  refine ⟨?_, two_pow_dvd_self e⟩
  unfold unitsLimit
  exact Nat.pow_lt_pow_right (by decide) h

namespace Binary64

/-- A quotient that is bounded by a finite double is finite. -/
theorem ofQuotient_eq (negative : Bool) {num den units : Nat} (hden : 0 < den)
    (hunits : Fits units) (h : num ≤ den * units) :
    ofQuotient negative num den =
      .finite negative (nearest num den) (fits_nearest hden hunits h) :=
  dif_pos (fits_nearest hden hunits h).1

theorem isFinite_ofQuotient {negative : Bool} {num den units : Nat} (hden : 0 < den)
    (hunits : Fits units) (h : num ≤ den * units) :
    (ofQuotient negative num den).isFinite = true := by
  rw [ofQuotient_eq negative hden hunits h]
  rfl

end Binary64

/-- A double is a whole number or small. -/
theorem whole_or_small {units : Nat} (h : Fits units) :
    unitsInOne ∣ units ∨ units < 2 ^ (52 : Nat) * unitsInOne := by
  unfold unitsInOne
  by_cases hlog : 52 + binaryPlaces ≤ units.log2
  · exact .inl (Nat.dvd_trans (Nat.pow_dvd_pow 2 (by omega)) h.2)
  · refine .inr (Nat.lt_of_lt_of_le Nat.lt_log2_self ?_)
    rw [← Nat.pow_add]
    exact Nat.pow_le_pow_right (by decide) (by omega)

end Embroidery
