/-
  Distances between points that may be infinitely far out.

  A distance is computed with a rounding at every step, and each step keeps a number that is not
  negative: squares, sums and roots of such numbers are such numbers again, however far they
  overflow.  So a distance is at least zero as soon as both differences are numbers, and otherwise
  it is not a number and at least nothing (`zero_le_distance_iff`).  The difference of two numbers
  fails to be a number only between an infinity and itself (`isNaN_sub_iff`).
-/
import Embroidery.Geometry
import Embroidery.Proofs.Number.Order
import Embroidery.Proofs.Number.Percentage

namespace Embroidery

-- Powers of naturals are those of core, whatever other instances are at hand.
attribute [local instance (2000)] instPowNat

namespace Binary64

/-! ## Differences -/

/-- The difference of two numbers is a number, but for an infinity and itself. -/
theorem isNaN_sub_iff {a b : Binary64} (ha : a.isNaN = false) (hb : b.isNaN = false) :
    (a - b).isNaN = true ↔ a.isFinite = false ∧ a = b := by
  cases a with
  | nan => exact Bool.noConfusion ha
  | infinite m =>
    cases b with
    | nan => exact Bool.noConfusion hb
    | infinite n => cases m <;> cases n <;> decide
    | finite n v hv => exact iff_of_false Bool.false_ne_true fun h => nomatch h.2
  | finite m u hu =>
    refine iff_of_false ?_ fun h => Bool.noConfusion h.1
    cases b with
    | nan => exact Bool.noConfusion hb
    | infinite n => exact Bool.false_ne_true
    | finite n v hv =>
      refine Bool.eq_false_iff.1 ?_
      show (if signed m u + signed (!n) v = 0 then zero (m && !n)
        else ofQuotient (decide (signed m u + signed (!n) v < 0))
          (signed m u + signed (!n) v).natAbs 1).isNaN = false
      split
      · rfl
      · exact isNaN_ofQuotient _ _ _

theorem add_nan (a : Binary64) : a + .nan = .nan := by cases a <;> rfl

/-! ## Numbers that are not negative -/

theorem ascending_refl_ofQuotient (num : Nat) {den : Nat} (hden : 0 < den) :
    Ascending (ofQuotient false num den) (ofQuotient false num den) :=
  ascending_ofQuotient hden (Nat.le_refl num)

theorem ascending_square {a : Binary64} (ha : a.isNaN = false) : Ascending (a * a) (a * a) := by
  cases a with
  | nan => exact Bool.noConfusion ha
  | infinite m => cases m <;> exact .infinite
  | finite m u hu =>
    show Ascending (ofQuotient (m != m) (u * u) unitsInOne) (ofQuotient (m != m) (u * u) unitsInOne)
    rw [bne_self_eq_false]
    exact ascending_refl_ofQuotient _ unitsInOne_pos

theorem Ascending.sum {a b : Binary64} (ha : Ascending a a) (hb : Ascending b b) :
    Ascending (a + b) (a + b) := by
  cases ha with
  | infinite => cases hb <;> exact .infinite
  | @finite u _ hu _ h =>
    cases hb with
    | infinite => exact .infinite
    | @finite v _ hv _ h =>
      have hsum : Binary64.finite false u hu + .finite false v hv =
          if (u : Int) + v = 0 then zero false
          else ofQuotient (decide ((u : Int) + v < 0)) ((u : Int) + v).natAbs 1 := rfl
      have hpos : ¬(u : Int) + v < 0 := by omega
      rw [hsum, decide_eq_false hpos]
      split
      · exact .finite (Nat.le_refl 0)
      · exact ascending_refl_ofQuotient _ Nat.one_pos

theorem Ascending.root {a : Binary64} (ha : Ascending a a) : Ascending a.sqrt a.sqrt := by
  cases ha with
  | infinite => exact .infinite
  | @finite u _ hu _ h =>
    rw [sqrt]
    split
    · exact .finite h
    · rw [if_neg Bool.false_ne_true]
      exact ascending_refl_ofQuotient _ Nat.two_pos

theorem Ascending.zero_le {a : Binary64} (ha : Ascending a a) : 0 ≤ a := by
  rw [ofNat_zero]
  cases ha with
  | infinite => rfl
  | @finite u _ hu _ h => exact le_finite_iff.2 (Int.natCast_nonneg u)

end Binary64

open Binary64

/-! ## Distances -/

/-- A distance is at least zero as soon as both differences are numbers. -/
theorem zero_le_distance_iff (a b : Point) :
    0 ≤ distance a b ↔ (a.x - b.x).isNaN = false ∧ (a.y - b.y).isNaN = false := by
  unfold distance
  generalize a.x - b.x = dx
  generalize a.y - b.y = dy
  dsimp only
  constructor
  · intro h
    obtain ⟨-, hnumber⟩ := isNaN_of_le h
    -- what is not a number stays none through squares, sums and roots
    constructor
    · cases dx with
      | nan => exact Bool.noConfusion hnumber
      | _ => rfl
    · cases dy with
      | nan =>
        have hsum : dx * dx + .nan * .nan = .nan := add_nan (dx * dx)
        rw [hsum] at hnumber
        exact hnumber
      | _ => rfl
  · rintro ⟨hx, hy⟩
    exact ((ascending_square hx).sum (ascending_square hy)).root.zero_le

end Embroidery
