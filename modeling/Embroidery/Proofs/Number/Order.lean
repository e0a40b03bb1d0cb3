/-
  The order of doubles, and which operations keep numbers numbers.

  Away from what is not a number, `≤` is a linear order on the signed counts of units with an
  infinity at each end: it is reflexive (`le_refl`), transitive (`le_trans`) and total
  (`le_of_not_lt`).  So the smaller of two numbers lies below both and the larger above both.

  A quotient of a finite number by a positive one may leave the finite numbers, but it stays a
  number, and so does what rounding to two places makes of it (`isNaN_toMachine`).
-/
import Embroidery.Proofs.Instruction.Coordinate

namespace Embroidery

namespace Binary64

/-! ## The order -/

theorem le_refl {a : Binary64} (ha : a.isNaN = false) : a ≤ a := by
  cases a with
  | nan => exact Bool.noConfusion ha
  | infinite m => cases m <;> rfl
  | finite m u hu => exact le_finite_iff.2 (Int.le_refl _)

/-- Nothing is below or above what is not a number. -/
theorem isNaN_of_le {a b : Binary64} (h : a ≤ b) : a.isNaN = false ∧ b.isNaN = false := by
  cases a with
  | nan => exact Bool.noConfusion h
  | _ =>
    cases b with
    | nan => exact Bool.noConfusion h
    | _ => exact ⟨rfl, rfl⟩

theorem le_trans {a b c : Binary64} (hab : a ≤ b) (hbc : b ≤ c) : a ≤ c := by
  cases a with
  | nan => exact Bool.noConfusion hab
  | infinite m =>
    cases m with
    | true =>
      -- the lower end is below every number
      cases c with
      | nan => exact absurd (isNaN_of_le hbc).2 Bool.noConfusion
      | infinite k => cases k <;> rfl
      | finite k w hw => rfl
    | false =>
      cases b with
      | nan => exact Bool.noConfusion hab
      | infinite n =>
        cases n with
        | true => exact Bool.noConfusion hab
        | false => exact hbc
      | finite n v hv => exact Bool.noConfusion hab
  | finite m u hu =>
    cases b with
    | nan => exact Bool.noConfusion hab
    | infinite n =>
      cases n with
      | true => exact Bool.noConfusion hab
      | false =>
        -- only the upper end is above the upper end
        cases c with
        | nan => exact Bool.noConfusion hbc
        | infinite k =>
          cases k with
          | true => exact Bool.noConfusion hbc
          | false => rfl
        | finite k w hw => exact Bool.noConfusion hbc
    | finite n v hv =>
      cases c with
      | nan => exact Bool.noConfusion hbc
      | infinite k =>
        cases k with
        | true => exact Bool.noConfusion hbc
        | false => rfl
      | finite k w hw =>
        exact le_finite_iff.2 (Int.le_trans (le_finite_iff.1 hab) (le_finite_iff.1 hbc))

theorem le_of_lt {a b : Binary64} (h : a < b) : a ≤ b := by
  have hlt : a.lt b = true := h
  show (a.lt b || a.eq b) = true
  rw [hlt, Bool.true_or]

/-- Of two numbers one is below the other. -/
theorem le_of_not_lt {a b : Binary64} (ha : a.isNaN = false) (hb : b.isNaN = false)
    (h : ¬b < a) : a ≤ b := by
  cases a with
  | nan => exact Bool.noConfusion ha
  | infinite m =>
    cases b with
    | nan => exact Bool.noConfusion hb
    | infinite n =>
      cases m with
      | true => cases n <;> rfl
      | false =>
        cases n with
        | true => exact absurd rfl h
        | false => rfl
    | finite n v hv =>
      cases m with
      | true => rfl
      | false => exact absurd rfl h
  | finite m u hu =>
    cases b with
    | nan => exact Bool.noConfusion hb
    | infinite n =>
      cases n with
      | true => exact absurd rfl h
      | false => rfl
    | finite n v hv =>
      refine le_finite_iff.2 (Int.not_lt.1 ?_)
      intro hlt
      exact h (decide_eq_true hlt)

theorem least_le {a b : Binary64} (ha : a.isNaN = false) (hb : b.isNaN = false) :
    a.least b ≤ a ∧ a.least b ≤ b := by
  unfold least
  rw [ha, if_neg Bool.false_ne_true]
  split
  · next h => exact ⟨le_of_lt h, le_refl hb⟩
  · next h => exact ⟨le_refl ha, le_of_not_lt ha hb h⟩

theorem le_greatest {a b : Binary64} (ha : a.isNaN = false) (hb : b.isNaN = false) :
    a ≤ a.greatest b ∧ b ≤ a.greatest b := by
  unfold greatest
  rw [ha, if_neg Bool.false_ne_true]
  split
  · next h => exact ⟨le_of_lt h, le_refl hb⟩
  · next h => exact ⟨le_refl ha, le_of_not_lt hb ha h⟩

/-! ## Operations whose result is a number -/

theorem isNaN_ofQuotient (negative : Bool) (num den : Nat) :
    (ofQuotient negative num den).isNaN = false := by
  unfold ofQuotient
  split <;> rfl

theorem isNaN_div {a b : Binary64} (ha : a.isFinite = true) (hb : b.isFinite = true)
    (hpos : ¬b ≤ 0) : (a / b).isNaN = false := by
  cases a with
  | nan => exact Bool.noConfusion ha
  | infinite m => exact Bool.noConfusion ha
  | finite m u hu =>
    cases b with
    | nan => exact Bool.noConfusion hb
    | infinite n => exact Bool.noConfusion hb
    | finite n v hv =>
      have hne : v ≠ 0 := by
        intro hzero
        subst hzero
        refine hpos ?_
        rw [ofNat_zero]
        exact le_finite_iff.2 (by cases n <;> exact Int.le_refl _)
      show (if v = 0 then _ else ofQuotient (m != n) (u * unitsInOne) v).isNaN = false
      rw [if_neg hne]
      exact isNaN_ofQuotient _ _ _

theorem isNaN_mul_hundred {a : Binary64} (ha : a.isNaN = false) : (a * 100).isNaN = false := by
  rw [ofNat_hundred]
  have hne : 100 * unitsInOne ≠ 0 := Nat.ne_of_gt (Nat.mul_pos (by decide) unitsInOne_pos)
  cases a with
  | nan => exact Bool.noConfusion ha
  | infinite m => exact congrArg isNaN (if_neg hne)
  | finite m u hu => exact isNaN_ofQuotient _ _ _

theorem isNaN_round {a : Binary64} (ha : a.isNaN = false) : a.round.isNaN = false := by
  cases a with
  | nan => exact Bool.noConfusion ha
  | infinite m => rfl
  | finite m u hu => exact isNaN_ofQuotient _ _ _

theorem isNaN_div_hundred {a : Binary64} (ha : a.isNaN = false) : (a / 100).isNaN = false := by
  cases a with
  | nan => exact Bool.noConfusion ha
  | infinite m =>
    rw [ofNat_hundred]
    rfl
  | finite m u hu => exact isNaN_div rfl (isFinite_ofNat (by decide)) (by decide +kernel)

end Binary64

/-- A coordinate in machine units is a number, though it need not be finite. -/
theorem isNaN_toMachine {factor raw : Binary64} (hraw : raw.isFinite = true)
    (hfactor : factor.isFinite = true) (hpos : ¬factor ≤ 0) :
    (toMachine factor raw).isNaN = false := by
  have hquotient := Binary64.isNaN_div hraw hfactor hpos
  have hrounded := Binary64.isNaN_div_hundred
    (Binary64.isNaN_round (Binary64.isNaN_mul_hundred hquotient))
  unfold toMachine roundTo
  rw [powInt_coordinatePlaces]
  dsimp only
  split
  · exact Binary64.isNaN_ofQuotient _ _ _
  · exact hrounded

end Embroidery
