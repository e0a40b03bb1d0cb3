/-
  Progress in percent.

  The progress of an index in a pattern of so many events is computed with doubles, from a whole
  number that may be as large as one likes.  Multiplication, division and the dropping of the
  fraction keep the order of numbers that are not negative (`Ascending`), so progress never falls
  while the index rises (`progressAt_mono`).  Up to the number of events it is at most a hundred
  (`progressAt_le`): rounding can carry the quotient a little above, which the fraction takes off.
-/
import Embroidery.Proofs.Number.Rounding
import Embroidery.Program.Step

namespace Embroidery

-- Powers of naturals are those of core, whatever other instances are at hand.
attribute [local instance (2000)] instPowNat

/-- The progress of an index among so many events, in percent. -/
def progressAt (total index : Nat) : Int :=
  remap (Binary64.ofNat index) 0 (Binary64.ofNat total) 0 100

namespace Binary64

/-! ## The order of numbers that are not negative -/

/-- Neither number is negative, and the first is not above the second. -/
inductive Ascending : Binary64 → Binary64 → Prop
  | finite {u v : Nat} {hu : Fits u} {hv : Fits v} (h : u ≤ v) :
    Ascending (.finite false u hu) (.finite false v hv)
  | toInfinite {u : Nat} {hu : Fits u} : Ascending (.finite false u hu) (.infinite false)
  | infinite : Ascending (.infinite false) (.infinite false)

theorem ascending_ofQuotient {num num' den : Nat} (hden : 0 < den) (h : num ≤ num') :
    Ascending (ofQuotient false num den) (ofQuotient false num' den) := by
  have hmono := nearest_mono hden h
  unfold ofQuotient
  split
  · split
    · exact .finite hmono
    · exact .toInfinite
  · next hlarge =>
    rw [dif_neg (by omega)]
    exact .infinite

theorem ascending_infinite (num den : Nat) :
    Ascending (ofQuotient false num den) (.infinite false) := by
  unfold ofQuotient
  split
  · exact .toInfinite
  · exact .infinite

theorem ascending_ofNat {m n : Nat} (h : m ≤ n) : Ascending (ofNat m) (ofNat n) :=
  ascending_ofQuotient (by decide) (Nat.mul_le_mul_right _ h)

theorem Ascending.mul {a b : Binary64} (h : Ascending a b) {v : Nat} (hv : Fits v) (hpos : 0 < v) :
    Ascending (a * .finite false v hv) (b * .finite false v hv) := by
  have hinfinite : Binary64.infinite false * .finite false v hv = .infinite false :=
    if_neg (Nat.ne_of_gt hpos)
  cases h with
  | finite h => exact ascending_ofQuotient unitsInOne_pos (Nat.mul_le_mul_right _ h)
  | toInfinite =>
    rw [hinfinite]
    exact ascending_infinite _ _
  | infinite =>
    rw [hinfinite]
    exact .infinite

theorem Ascending.div {a b : Binary64} (h : Ascending a b) {v : Nat} (hv : Fits v) (hpos : 0 < v) :
    Ascending (a / .finite false v hv) (b / .finite false v hv) := by
  have hfinite : ∀ {u : Nat} (hu : Fits u), Binary64.finite false u hu / .finite false v hv =
      ofQuotient false (u * unitsInOne) v := fun _ => if_neg (Nat.ne_of_gt hpos)
  cases h with
  | finite h =>
    rw [hfinite, hfinite]
    exact ascending_ofQuotient hpos (Nat.mul_le_mul_right _ h)
  | toInfinite =>
    rw [hfinite]
    exact ascending_infinite _ _
  | infinite => exact .infinite

/-- Whole parts keep the order. -/
theorem Ascending.toInt64 {a b : Binary64} (h : Ascending a b) :
    0 ≤ a.toInt64 ∧ a.toInt64 ≤ b.toInt64 := by
  have hlow : Int64.minValue.toInt ≤ 0 := by decide
  have hhigh : 0 ≤ Int64.maxValue.toInt := by decide
  cases h with
  | @finite u v _ _ h =>
    have hdiv : u / unitsInOne ≤ v / unitsInOne := Nat.div_le_div_right h
    simp only [Binary64.toInt64, toIntWithin, signed_false]
    generalize u / unitsInOne = whole at *
    generalize v / unitsInOne = whole' at *
    omega
  | @toInfinite u _ =>
    simp only [Binary64.toInt64, toIntWithin, signed_false]
    rw [if_neg Bool.false_ne_true]
    generalize u / unitsInOne = whole
    omega
  | infinite => exact ⟨hhigh, Int.le_refl _⟩

/-! ## Zero as a term -/

theorem Ascending.add_zero {a b : Binary64} (h : Ascending a b) (negative : Bool) :
    a + zero negative = a := by
  have hfinite : ∀ {u : Nat} (hu : Fits u),
      Binary64.finite false u hu + zero negative = .finite false u hu := by
    intro u hu
    have htotal : signed false u + signed negative 0 = (u : Int) := by
      cases negative <;> simp [signed]
    show (if signed false u + signed negative 0 = 0 then zero (false && negative)
      else ofQuotient (decide (signed false u + signed negative 0 < 0))
        (signed false u + signed negative 0).natAbs 1) = _
    rw [htotal]
    by_cases hzero : u = 0
    · subst hzero
      rfl
    · have hpos : ¬(u : Int) < 0 := by omega
      rw [if_neg (by omega), decide_eq_false hpos, Int.natAbs_natCast]
      exact ofQuotient_of_fits false hu
  cases h with
  | finite h => exact hfinite _
  | toInfinite => exact hfinite _
  | infinite => rfl

theorem Ascending.sub_zero {a b : Binary64} (h : Ascending a b) : a - 0 = a := by
  rw [ofNat_zero]
  exact h.add_zero true

theorem ascending_refl_ofNat (n : Nat) : Ascending (ofNat n) (ofNat n) :=
  ascending_ofNat (Nat.le_refl n)

end Binary64

open Binary64

/-! ## Progress -/

theorem remap_ofNat (total index : Nat) :
    progressAt total index =
      if (Binary64.ofNat total).eq 0 then 0
      else (Binary64.ofNat index * 100 / Binary64.ofNat total + 0).toInt64 := by
  have hhundred : (100 : Binary64) - 0 = 100 := (ascending_refl_ofNat 100).sub_zero
  have hzero : (0 : Binary64).toInt64 = 0 := by decide +kernel
  unfold progressAt remap
  rw [hhundred, hzero, (ascending_refl_ofNat index).sub_zero,
    (ascending_refl_ofNat total).sub_zero]

/-- Progress is zero throughout, or a hundred times the index is divided by a number of events that
    is neither zero nor infinite. -/
theorem progressAt_cases (total : Nat) :
    (∀ index, progressAt total index = 0) ∨
      ∃ t, ∃ ht : Fits t, 0 < t ∧ Binary64.ofNat total = .finite false t ht ∧
        ∀ index, progressAt total index =
          (Binary64.ofNat index * 100 / .finite false t ht).toInt64 := by
  have hpos : 0 < 100 * unitsInOne := Nat.mul_pos (by decide) unitsInOne_pos
  have hproduct : ∀ index, Ascending (Binary64.ofNat index * 100) (Binary64.ofNat index * 100) := by
    intro index
    rw [ofNat_hundred]
    exact (ascending_refl_ofNat index).mul _ hpos
  cases htotal : Binary64.ofNat total with
  | nan =>
    have h := ascending_refl_ofNat total
    rw [htotal] at h
    exact nomatch h
  | infinite negative =>
    left
    intro index
    rw [remap_ofNat, htotal]
    have h := hproduct index
    generalize Binary64.ofNat index * 100 = product at h
    cases h with
    | finite h =>
      show (if (Binary64.infinite negative).eq 0 then 0
        else (zero (false != negative) + 0).toInt64) = 0
      cases negative <;> decide +kernel
    | infinite => cases negative <;> decide +kernel
  | finite negative t ht =>
    have hnegative : negative = false := by
      have h := ascending_refl_ofNat total
      rw [htotal] at h
      cases h
      rfl
    subst hnegative
    by_cases hzero : t = 0
    · left
      intro index
      subst hzero
      rw [remap_ofNat, htotal, ofNat_zero]
      rfl
    · right
      refine ⟨t, ht, by omega, rfl, ?_⟩
      intro index
      have heq : (Binary64.finite false t ht).eq 0 = false := by
        rw [ofNat_zero]
        exact decide_eq_false (by simpa [signed] using hzero)
      rw [remap_ofNat, htotal, heq, if_neg Bool.false_ne_true, ofNat_zero,
        ((hproduct index).div ht (by omega)).add_zero]

theorem progressAt_mono (total : Nat) {index index' : Nat} (h : index ≤ index') :
    0 ≤ progressAt total index ∧ progressAt total index ≤ progressAt total index' := by
  rcases progressAt_cases total with hzero | ⟨t, ht, hpos, -, hprogress⟩
  · rw [hzero, hzero]
    omega
  · have hfactor : 0 < 100 * unitsInOne := Nat.mul_pos (by decide) unitsInOne_pos
    rw [hprogress, hprogress, ofNat_hundred]
    exact (((ascending_ofNat h).mul _ hfactor).div ht hpos).toInt64

/-- A hundred times a number that is not small rounds up by less than one part in two hundred. -/
theorem nearest_hundredfold {t : Nat} (h : unitsInOne ≤ t) :
    2 * nearest (t * (100 * unitsInOne)) unitsInOne ≤ 201 * t := by
  have hlarge : 2 ^ (52 : Nat) ≤ t * (100 * unitsInOne) / unitsInOne := by
    have hplaces : 52 ≤ binaryPlaces := by
      unfold binaryPlaces
      decide
    have hone : 2 ^ (52 : Nat) ≤ unitsInOne := by
      unfold unitsInOne
      exact Nat.pow_le_pow_right (by decide) hplaces
    rw [← Nat.mul_assoc, Nat.mul_div_cancel _ unitsInOne_pos]
    omega
  have hnear := nearest_le_of_large unitsInOne_pos hlarge
  have hcancel : 2 ^ (53 : Nat) * nearest (t * (100 * unitsInOne)) unitsInOne ≤
      (2 ^ (53 : Nat) + 1) * (t * 100) := by
    refine Nat.le_of_mul_le_mul_left ?_ unitsInOne_pos
    rw [Nat.mul_left_comm, Nat.mul_left_comm unitsInOne, Nat.mul_comm unitsInOne (t * 100),
      Nat.mul_assoc t]
    exact hnear
  omega

/-- The number of events as a double. -/
theorem units_ofNat {n t : Nat} {ht : Fits t} (hn : n < 2 ^ (64 : Nat)) (hpos : 0 < t)
    (h : Binary64.ofNat n = .finite false t ht) :
    unitsInOne ≤ t ∧ t ≤ 2 ^ (64 + binaryPlaces) := by
  have hsmall : n * unitsInOne ≤ 1 * 2 ^ (64 + binaryPlaces) := by
    unfold unitsInOne
    rw [Nat.one_mul, Nat.pow_add]
    exact Nat.mul_le_mul_right _ (Nat.le_of_lt hn)
  have hfits : Fits (2 ^ (64 + binaryPlaces)) := fits_two_pow (by omega)
  have hnear : t = nearest (n * unitsInOne) 1 :=
    (Binary64.finite.inj (h.symm.trans (ofQuotient_eq false (by decide) hfits hsmall))).2
  have hone : nearest (1 * unitsInOne) 1 = 1 * unitsInOne :=
    nearest_of_dvd (fits_whole (n := 1) (by decide)).2
  constructor
  · cases n with
    | zero =>
      rw [Nat.zero_mul, nearest_of_dvd (Nat.dvd_zero _)] at hnear
      omega
    | succ n =>
      have hmono : nearest (1 * unitsInOne) 1 ≤ nearest ((n + 1) * unitsInOne) 1 :=
        nearest_mono (by decide) (Nat.mul_le_mul_right _ (Nat.le_add_left 1 n))
      rw [hone, ← hnear] at hmono
      omega
  · rw [hnear]
    exact nearest_le (by decide) hfits.2 hsmall

/-- A hundred and a half is a double. -/
theorem exists_half : ∃ half, 2 * half = unitsInOne ∧ Fits (201 * half) := by
  have hplaces : binaryPlaces - 1 + 1 = binaryPlaces := by
    unfold binaryPlaces
    decide
  refine ⟨2 ^ (binaryPlaces - 1), ?_, ?_, spacing_dvd_of_le (by decide)⟩
  · unfold unitsInOne
    rw [← Nat.pow_succ', Nat.succ_eq_add_one, hplaces]
  · have hpower : 2 ^ (8 : Nat) * 2 ^ (binaryPlaces - 1) ≤ unitsLimit := by
      unfold unitsLimit
      rw [← Nat.pow_add]
      exact Nat.pow_le_pow_right (by decide) (by omega)
    exact Nat.lt_of_lt_of_le (Nat.mul_lt_mul_of_pos_right (by decide) (Nat.two_pow_pos _)) hpower

theorem toInt64_le {units n : Nat} (hunits : Fits units) (h : units < unitsInOne * (n + 1)) :
    (Binary64.finite false units hunits).toInt64 ≤ n := by
  have hwhole : units / unitsInOne < n + 1 := Nat.div_lt_of_lt_mul h
  have hlow : Int64.minValue.toInt ≤ 0 := by decide
  simp only [Binary64.toInt64, toIntWithin, signed_false]
  generalize units / unitsInOne = whole at *
  omega

/-- All events together make a hundred percent, however the quotient is rounded. -/
theorem progressAt_self_le {total : Nat} (htotal : total < 2 ^ (64 : Nat)) :
    progressAt total total ≤ 100 := by
  rcases progressAt_cases total with hzero | ⟨t, ht, hpos, hfinite, hprogress⟩
  · rw [hzero]
    decide
  obtain ⟨hlarge, hbound⟩ := units_ofNat htotal hpos hfinite
  have hfactor : Fits (100 * unitsInOne) := fits_whole (by decide)
  have hlimit : Fits (2 ^ (7 + (64 + binaryPlaces))) := fits_two_pow (by omega)
  have hproduct : t * (100 * unitsInOne) ≤ unitsInOne * 2 ^ (7 + (64 + binaryPlaces)) := by
    rw [Nat.pow_add, ← Nat.mul_assoc, Nat.mul_comm]
    refine Nat.mul_le_mul_left _ ?_
    omega
  have hmul : Binary64.finite false t ht * .finite false (100 * unitsInOne) hfactor =
      .finite false _ (fits_nearest unitsInOne_pos hlimit hproduct) :=
    ofQuotient_eq false unitsInOne_pos hlimit hproduct
  -- the product divided by the number of events is at most a hundred and a half
  obtain ⟨half, hhalf, hfits⟩ := exists_half
  have hquotient : nearest (t * (100 * unitsInOne)) unitsInOne * unitsInOne ≤ t * (201 * half) := by
    have h := Nat.mul_le_mul_right half (nearest_hundredfold hlarge)
    generalize nearest (t * (100 * unitsInOne)) unitsInOne = product at h ⊢
    rw [← hhalf, Nat.mul_left_comm, Nat.mul_left_comm t, ← Nat.mul_assoc, ← Nat.mul_assoc]
    exact h
  have hdiv : Binary64.finite false _ (fits_nearest unitsInOne_pos hlimit hproduct) /
      .finite false t ht = .finite false _ (fits_nearest hpos hfits hquotient) :=
    (if_neg (Nat.ne_of_gt hpos)).trans (ofQuotient_eq false hpos hfits hquotient)
  have hle := nearest_le hpos hfits.2 hquotient
  have hone := unitsInOne_pos
  rw [hprogress, hfinite, ofNat_hundred, hmul, hdiv]
  exact toInt64_le (n := 100) _ (by omega)

/-- Up to the number of events, progress does not pass a hundred. -/
theorem progressAt_le {total index : Nat} (htotal : total < 2 ^ (64 : Nat)) (h : index ≤ total) :
    progressAt total index ≤ 100 :=
  Int.le_trans (progressAt_mono total h).2 (progressAt_self_le htotal)

end Embroidery
