/-
  Quotients by a number on either side of one.

  A quotient that is a double is not moved by rounding (`nearest_exact`), so a number divided by
  itself gives one.  Rounding keeps the order, and with it a square of a number that is at least one
  is at least one, and a number divided by it does not grow; and the other way round below one.
  What overflows is infinite and stays on its side, so no size has to be asked for.
-/
import Embroidery.Proofs.Number.Percentage

namespace Embroidery

-- Powers of naturals are those of core, whatever other instances are at hand.
attribute [local instance (2000)] instPowNat

/-- A quotient that is a double is not moved by rounding. -/
theorem nearest_exact {den units : Nat} (hden : 0 < den)
    (hunits : 2 ^ (units.log2 - 52) ∣ units) : nearest (den * units) den = units := by
  have hquotient : den * units / den ≤ units := Nat.le_of_eq (Nat.mul_div_cancel_left units hden)
  have hbelow : nearest (den * units) den ≤ units := nearest_le hden hunits (Nat.le_refl _)
  have habove : units ≤ nearest (den * units) den :=
    le_nearest hden (spacing_dvd hunits hquotient) (Nat.le_refl _)
  exact Nat.le_antisymm hbelow habove

namespace Binary64

theorem ofQuotient_exact (negative : Bool) {den units : Nat} (hden : 0 < den) (h : Fits units) :
    ofQuotient negative (den * units) den = .finite negative units h := by
  rw [ofQuotient_eq negative hden h (Nat.le_refl _)]
  congr 1
  exact nearest_exact hden h.2

/-! ## One -/

theorem fits_unitsInOne : Fits unitsInOne := by
  have h := fits_whole (n := 1) (by decide)
  rw [Nat.one_mul] at h
  exact h

theorem ofNat_one : (1 : Binary64) = .finite false unitsInOne fits_unitsInOne := by
  show ofQuotient false (1 * unitsInOne) 1 = _
  exact ofQuotient_exact false (by decide) fits_unitsInOne

theorem div_self {units : Nat} (fits : Fits units) (hpos : 0 < units) :
    Binary64.finite false units fits / .finite false units fits = 1 := by
  rw [ofNat_one]
  show (if units = 0 then _ else ofQuotient false (units * unitsInOne) units) = _
  rw [if_neg (by omega)]
  exact ofQuotient_exact false hpos fits_unitsInOne

/-- A number that is at least one is finite, with at least the units of one, or infinite. -/
theorem Ascending.of_one {r : Binary64} (h : Ascending 1 r) :
    (∃ u, ∃ hu : Fits u, unitsInOne ≤ u ∧ r = .finite false u hu) ∨ r = .infinite false := by
  rw [ofNat_one] at h
  cases h with
  | finite h => exact .inl ⟨_, _, h, rfl⟩
  | toInfinite => exact .inr rfl

/-- A number that is at most one is finite, with at most the units of one. -/
theorem Ascending.to_one {r : Binary64} (h : Ascending r 1) :
    ∃ u, ∃ hu : Fits u, u ≤ unitsInOne ∧ r = .finite false u hu := by
  rw [ofNat_one] at h
  cases h with
  | finite h => exact ⟨_, _, h, rfl⟩

/-! ## Squares -/

theorem one_mul_one : (1 : Binary64) = ofQuotient false (unitsInOne * unitsInOne) unitsInOne := by
  rw [ofNat_one, ofQuotient_exact false unitsInOne_pos fits_unitsInOne]

theorem Ascending.one_square {r : Binary64} (h : Ascending 1 r) : Ascending 1 (r * r) := by
  rcases h.of_one with ⟨u, hu, hone, rfl⟩ | rfl
  · rw [one_mul_one]
    exact ascending_ofQuotient unitsInOne_pos (Nat.mul_le_mul hone hone)
  · rw [ofNat_one]
    exact .toInfinite

theorem Ascending.square_one {r : Binary64} (h : Ascending r 1) : Ascending (r * r) 1 := by
  obtain ⟨u, hu, hone, rfl⟩ := h.to_one
  rw [one_mul_one]
  exact ascending_ofQuotient unitsInOne_pos (Nat.mul_le_mul hone hone)

/-! ## Quotients -/

/-- A number does not grow when it is divided by one that is at least one. -/
theorem Ascending.div_le {r : Binary64} (h : Ascending 1 r) {v : Nat} (hv : Fits v) :
    Ascending (.finite false v hv / r) (.finite false v hv) := by
  rcases h.of_one with ⟨u, hu, hone, rfl⟩ | rfl
  · have hpos : 0 < u := Nat.lt_of_lt_of_le unitsInOne_pos hone
    show Ascending (if u = 0 then _ else ofQuotient false (v * unitsInOne) u) _
    rw [if_neg (by omega), ← ofQuotient_exact false hpos hv]
    refine ascending_ofQuotient hpos ?_
    rw [Nat.mul_comm u]
    exact Nat.mul_le_mul_left v hone
  · exact .finite (Nat.zero_le v)

/-- A number does not shrink when it is divided by one that is at most one. -/
theorem Ascending.le_div {r : Binary64} (h : Ascending r 1) {v : Nat} (hv : Fits v)
    (hpos : 0 < v) : Ascending (.finite false v hv) (.finite false v hv / r) := by
  obtain ⟨u, hu, hone, rfl⟩ := h.to_one
  show Ascending _ (if u = 0 then (if v = 0 then _ else .infinite false)
    else ofQuotient false (v * unitsInOne) u)
  by_cases hzero : u = 0
  · rw [if_pos hzero, if_neg (by omega)]
    exact .toInfinite
  · rw [if_neg hzero, ← ofQuotient_exact false (Nat.pos_of_ne_zero hzero) hv]
    refine ascending_ofQuotient (Nat.pos_of_ne_zero hzero) ?_
    rw [Nat.mul_comm u]
    exact Nat.mul_le_mul_left v hone

/-! ## Machine words -/

/-- The fraction is dropped, and what is too large becomes the largest machine word. -/
theorem toNat_toUInt32 {u : Nat} (hu : Fits u) :
    (Binary64.finite false u hu).toUInt32.toNat = min 4294967295 (u / unitsInOne) := by
  have hsize : ((UInt32.size : Int) - 1) = 4294967295 := rfl
  simp only [Binary64.toUInt32, toIntWithin, signed_false, hsize, UInt32.toNat_ofNat']
  generalize u / unitsInOne = whole
  omega

/-- Dropping the fraction keeps the order. -/
theorem Ascending.toUInt32 {a b : Binary64} (h : Ascending a b) : a.toUInt32 ≤ b.toUInt32 := by
  have hinfinite : (Binary64.infinite false).toUInt32.toNat = 4294967295 := by decide
  rw [UInt32.le_iff_toNat_le]
  cases h with
  | @finite u v hu hv h =>
    have hdiv : u / unitsInOne ≤ v / unitsInOne := Nat.div_le_div_right h
    rw [toNat_toUInt32 hu, toNat_toUInt32 hv]
    omega
  | @toInfinite u hu =>
    rw [toNat_toUInt32 hu, hinfinite]
    exact Nat.min_le_left _ _
  | infinite => exact Nat.le_refl _

end Binary64
end Embroidery
