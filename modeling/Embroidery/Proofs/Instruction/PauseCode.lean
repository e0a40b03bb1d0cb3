/-
  Pauses and their sub-codes.

  A number stands for a pause (`PauseCode.ofValue`), and a pause is written as an integer.  For an
  integer that is a double the pause is decided by comparing integers (`ofValue_ofInt`), so a pause
  comes back from its sub-code, if that is in the range that belongs to it (`ofValue_code`).

  The pauses of numbers are in these ranges, but for one gap.  The fraction is dropped behind the
  decision what a pause asks for, so a fraction between 100 and 102 has the foreign sub-code 100 or
  101 (`ofValue_eq_other_iff`), and these two stand for something else when they are read again
  (`ofValue_code_ofValue`).
-/
import Embroidery.Proofs.Number.Integer

namespace Embroidery

-- Powers of naturals are those of core, whatever other instances are at hand.
attribute [local instance (2000)] instPowNat

open Binary64

namespace Binary64

/-- A number that does not lie between zero and a hundred is not cut to an integer that does. -/
theorem toInt64_of_not_between {v : Binary64} (h : ¬(0 < v ∧ v < 100)) :
    v.toInt64 ≤ 0 ∨ 100 ≤ v.toInt64 := by
  have hmin : Int64.minValue.toInt ≤ 0 := by decide
  have hmax : 100 ≤ Int64.maxValue.toInt := by decide
  cases v with
  | nan => exact .inl (Int.le_refl 0)
  | infinite negative =>
    cases negative with
    | true => exact .inl hmin
    | false => exact .inr hmax
  | finite negative units fits =>
    rw [ofNat_zero, ofNat_hundred] at h
    simp only [toInt64, toIntWithin]
    by_cases hsign : 0 < signed negative units
    · have hlarge : ¬signed negative units < (100 * unitsInOne : Nat) := by
        intro hlt
        exact h ⟨decide_eq_true hsign, decide_eq_true hlt⟩
      cases negative with
      | true =>
        simp only [signed, if_true] at hsign
        omega
      | false =>
        rw [signed_false] at hlarge ⊢
        have hwhole : 100 ≤ units / unitsInOne :=
          (Nat.le_div_iff_mul_le unitsInOne_pos).2 (by omega)
        omega
    · have hwhole : signed negative (units / unitsInOne) ≤ (0 : Nat) :=
        signed_div_le (by rw [Nat.zero_mul]; omega)
      omega

end Binary64

namespace PauseCode

variable {v : Binary64} {code : Int}

/-! ## From a sub-code -/

theorem holds_small {i : Int} (h : i.natAbs ≤ 255) : Holds i :=
  holds_of_natAbs_le (Nat.le_trans h (by decide))

/-- The pause of an integer that is a double. -/
theorem ofValue_ofInt (h : Holds code) :
    ofValue (ofInt code) =
      if 0 < code ∧ code < 100 then .colorStart (max (ofInt code).toUInt8 1)
      else if code = 100 then .threadInserted
      else if code = 101 then .trim
      else .other (ofInt code).toInt64 := by
  have hzero : (0 : Binary64) = ofInt 0 := (ofInt_natCast 0).symm
  have hhundred : (100 : Binary64) = ofInt 100 := (ofInt_natCast 100).symm
  have htrim : (101 : Binary64) = ofInt 101 := (ofInt_natCast 101).symm
  have hlow : Holds 0 := holds_small (by decide)
  have hinserted : Holds 100 := holds_small (by decide)
  have htrimmed : Holds 101 := holds_small (by decide)
  simp only [ofValue, hzero, hhundred, htrim, lt_ofInt_iff hlow h, lt_ofInt_iff h hinserted,
    eq_ofInt_iff h hinserted, eq_ofInt_iff h htrimmed]

/-- The sub-code of the pause is in the range that belongs to it, and can be read. -/
def Regular : PauseCode → Prop
  | .colorStart color => 1 ≤ color.toNat ∧ color.toNat ≤ maxColor
  | .other code => (code < 1 ∨ 101 < code) ∧ (ofInt code).toInt64 = code ∧ Holds code
  | _ => True

theorem ofValue_code {code : PauseCode} (h : code.Regular) : ofValue (ofInt code.code) = code := by
  cases code with
  | colorStart color =>
    have hmax : maxColor = 99 := rfl
    have hlow : 1 ≤ color.toNat := h.1
    have hhigh : color.toNat ≤ maxColor := h.2
    have hone : max color 1 = color := by
      show (if color ≤ 1 then 1 else color) = color
      split
      · next hle =>
        have hle : color.toNat ≤ 1 := hle
        exact UInt8.toNat_inj.1 (show 1 = color.toNat by omega)
      · rfl
    rw [code, ofValue_ofInt (holds_small (by omega)), if_pos (by omega), ofInt_natCast,
      toUInt8_ofNat, hone]
  | threadInserted => exact ofValue_ofInt (holds_small (by decide))
  | trim => exact ofValue_ofInt (holds_small (by decide))
  | other code =>
    obtain ⟨hforeign, hword, hholds⟩ := h
    rw [PauseCode.code, ofValue_ofInt hholds, if_neg (by omega), if_neg (by omega),
      if_neg (by omega), hword]

theorem isFinite_code {code : PauseCode} (h : code.Regular) :
    (ofInt code.code).isFinite = true := by
  cases code with
  | colorStart color =>
    have hlt := color.toNat_lt
    rw [code, ofInt_natCast]
    exact isFinite_ofNat (by omega)
  | threadInserted => exact isFinite_ofInt (holds_small (by decide))
  | trim => exact isFinite_ofInt (holds_small (by decide))
  | other code => exact isFinite_ofInt h.2.2

/-! ## From a number -/

theorem of_ofValue_colorStart {color : UInt8} (h : ofValue v = .colorStart color) :
    1 ≤ color.toNat ∧ color.toNat ≤ maxColor := by
  rw [ofValue] at h
  split at h
  · next hbounds =>
    obtain ⟨units, fits, rfl, -, hlt⟩ :=
      @of_between v 0 100 (by decide) (by decide) hbounds.1 hbounds.2
    have hwhole : units / unitsInOne < 100 := (Nat.div_lt_iff_lt_mul unitsInOne_pos).2 hlt
    have hcut := toNat_toUInt8 false fits
    rw [signed_false] at hcut
    have hmax : maxColor = 99 := rfl
    have hcolor : (if (Binary64.finite false units fits).toUInt8 ≤ 1 then 1
        else (Binary64.finite false units fits).toUInt8) = color := PauseCode.colorStart.inj h
    split at hcolor
    · rw [← hcolor]
      decide
    · next hone =>
      have hlarge : ¬(Binary64.finite false units fits).toUInt8.toNat ≤ 1 := hone
      rw [← hcolor]
      omega
  · split at h
    · cases h
    · split at h <;> cases h

theorem of_ofValue_other {code : Int} (h : ofValue v = .other code) :
    code = v.toInt64 ∧ (code ≤ 0 ∨ 100 ≤ code) := by
  rw [ofValue] at h
  split at h
  · cases h
  · next hbounds =>
    split at h
    · cases h
    · split at h
      · cases h
      · rw [← PauseCode.other.inj h]
        exact ⟨rfl, toInt64_of_not_between hbounds⟩

/-- The doubles that are cut to a positive number are those from it to below the next one. -/
theorem toInt64_eq_iff {n : Nat} (hpos : 0 < n) (hsmall : n ≤ 2 ^ (53 : Nat)) :
    v.toInt64 = n ↔ ∃ units, ∃ fits : Fits units, v = .finite false units fits ∧
      n * unitsInOne ≤ units ∧ units < (n + 1) * unitsInOne := by
  have hmin : Int64.minValue.toInt = -9223372036854775808 := rfl
  have hmax : Int64.maxValue.toInt = 9223372036854775807 := rfl
  constructor
  · intro h
    cases v with
    | nan =>
      have hzero : (0 : Int) = n := h
      omega
    | infinite negative =>
      simp only [toInt64, toIntWithin] at h
      split at h <;> omega
    | finite negative units fits =>
      simp only [toInt64, toIntWithin] at h
      cases negative with
      | true =>
        generalize units / unitsInOne = whole at h
        simp only [signed, if_true] at h
        omega
      | false =>
        have hwhole : units / unitsInOne = n := by
          rw [signed_false] at h
          omega
        refine ⟨units, fits, rfl, ?_, ?_⟩
        · rw [← hwhole]
          exact Nat.div_mul_le_self units unitsInOne
        · rw [← Nat.div_lt_iff_lt_mul unitsInOne_pos, hwhole]
          exact Nat.lt_succ_self n
  · rintro ⟨units, fits, rfl, hle, hlt⟩
    have hwhole : units / unitsInOne = n := Nat.div_eq_of_lt_le hle hlt
    simp only [toInt64, toIntWithin, signed_false, hwhole]
    omega

/-- The foreign sub-codes 100 and 101 are those of the numbers strictly between these and the next
    whole number. -/
theorem ofValue_eq_other_iff {n : Nat} (hlow : 100 ≤ n) (hhigh : n ≤ 101) :
    ofValue v = .other n ↔ ofNat n < v ∧ v < ofNat (n + 1) := by
  have hsize : (102 : Nat) ≤ 2 ^ (53 : Nat) := by decide
  constructor
  · intro h
    obtain ⟨hcut, -⟩ := of_ofValue_other h
    obtain ⟨units, fits, rfl, hle, hlt⟩ := (toInt64_eq_iff (by omega) (by omega)).1 hcut.symm
    refine ⟨(ofNat_lt_finite_iff (by omega)).2 (Nat.lt_of_le_of_ne hle ?_),
      (finite_lt_ofNat_iff (by omega)).2 hlt⟩
    -- the whole number itself is no foreign sub-code
    rintro rfl
    have hwhole : Binary64.finite false (n * unitsInOne) fits = ofInt n := by
      rw [ofInt_natCast, ofNat_eq (by omega)]
    rw [hwhole, ofValue_ofInt (holds_small (by omega)), if_neg (by omega)] at h
    split at h
    · cases h
    · split at h
      · cases h
      · omega
  · rintro ⟨habove, hbelow⟩
    obtain ⟨units, fits, rfl, hgt, hlt⟩ := of_between (by omega) (by omega) habove hbelow
    have hcolor : ¬(0 < Binary64.finite false units fits ∧
        Binary64.finite false units fits < 100) := by
      rintro ⟨-, hcolor⟩
      have hfew : units < 100 * unitsInOne := (finite_lt_ofNat_iff (by decide)).1 hcolor
      have hpast : 100 * unitsInOne ≤ n * unitsInOne := Nat.mul_le_mul_right _ hlow
      omega
    -- a number between two whole numbers is no whole number
    have hne : ∀ m ≤ 101, ¬(Binary64.finite false units fits).eq (ofNat m) = true := by
      intro m hm heq
      have hunits : units = m * unitsInOne := (finite_eq_ofNat_iff (by omega)).1 heq
      rw [hunits] at hgt hlt
      have habove : n < m := Nat.lt_of_mul_lt_mul_right hgt
      have hbelow : m < n + 1 := Nat.lt_of_mul_lt_mul_right hlt
      omega
    have hcut : (Binary64.finite false units fits).toInt64 = n :=
      (toInt64_eq_iff (by omega) (by omega)).2 ⟨units, fits, rfl, Nat.le_of_lt hgt, hlt⟩
    have hinserted : ¬(Binary64.finite false units fits).eq 100 = true := hne 100 (by decide)
    have htrim : ¬(Binary64.finite false units fits).eq 101 = true := hne 101 (by decide)
    rw [ofValue, if_neg hcolor, if_neg hinserted, if_neg htrim, hcut]

/-- The pause whose sub-code is that of the given one. -/
def rewritten : PauseCode → PauseCode
  | .other code =>
    if code = 100 then .threadInserted else if code = 101 then .trim else .other code
  | code => code

/-- The sub-code of a number comes back, but 100 and 101 are no foreign ones any more. -/
theorem ofValue_code_ofValue (v : Binary64) :
    ofValue (ofInt (ofValue v).code) = (ofValue v).rewritten := by
  cases hcode : ofValue v with
  | colorStart color => exact ofValue_code (of_ofValue_colorStart hcode)
  | threadInserted => exact ofValue_code trivial
  | trim => exact ofValue_code trivial
  | other code =>
    obtain ⟨hcut, hrange⟩ := of_ofValue_other hcode
    have hword : (ofInt code).toInt64 = code := by rw [hcut, toInt64_ofInt_toInt64]
    rw [PauseCode.code, rewritten]
    split
    · next hhundred =>
      rw [hhundred]
      exact @ofValue_code .threadInserted trivial
    · split
      · next htrim =>
        rw [htrim]
        exact @ofValue_code .trim trivial
      · -- the largest integer is no double, and the one that stands for it is cut to it
        rcases holds_toInt64 v with hholds | hmax
        · rw [← hcut] at hholds
          exact @ofValue_code (.other code) ⟨by omega, hword, hholds⟩
        · rw [hcut, hmax]
          decide +kernel

theorem isFinite_code_ofValue (v : Binary64) : (ofInt (ofValue v).code).isFinite = true := by
  cases hcode : ofValue v with
  | colorStart color => exact isFinite_code (of_ofValue_colorStart hcode)
  | threadInserted => exact isFinite_code trivial
  | trim => exact isFinite_code trivial
  | other code =>
    rw [(of_ofValue_other hcode).1]
    exact isFinite_ofInt_toInt64 v

end PauseCode
end Embroidery
