/-
  Parameters that programs can be generated with.

  The values are checked one by one (`Parameters.EachUsable`), and then one that is made of three of
  them: the acceleration of the needle axis at low speed must not be zero (`Parameters.check_iff`).

  That acceleration is the limit of the axis divided by the square of the ratio of the speeds.  It
  is lowered if the high speed is at least the low one (`Parameters.zLowAcceleration_le`).  Nothing
  asks for this order of the speeds, and in the other one it is raised
  (`Parameters.le_zLowAcceleration`).
-/
import Embroidery.Proofs.Number.Quotient
import Embroidery.Proofs.Results

namespace Embroidery

open Binary64

/-! ## The needle axis at low speed -/

theorem ofWord_finite (n : UInt32) :
    ∃ fits, ofWord n = .finite false (n.toNat * unitsInOne) fits := by
  have hlt := n.toNat_lt
  exact ⟨fits_whole (by omega), ofNat_eq (by omega)⟩

/-- Quotients of machine words by the same word are ordered like the words. -/
theorem ascending_ratio {k m n : UInt32} (hpos : 0 < m.toNat) (h : k ≤ n) :
    Ascending (ofWord k / ofWord m) (ofWord n / ofWord m) := by
  obtain ⟨fits, hm⟩ := ofWord_finite m
  rw [hm]
  exact (ascending_ofNat (UInt32.le_iff_toNat_le.1 h)).div fits (Nat.mul_pos hpos unitsInOne_pos)

theorem ratio_self {m : UInt32} (hpos : 0 < m.toNat) : ofWord m / ofWord m = 1 := by
  obtain ⟨fits, hm⟩ := ofWord_finite m
  rw [hm]
  exact div_self fits (Nat.mul_pos hpos unitsInOne_pos)

namespace Parameters

variable {p : Parameters} {a : AxisAcceleration} {z : UInt32}

/-- The high speed of the needle as a multiple of the low one. -/
def speedRatio (p : Parameters) : Binary64 := ofWord p.zHighSpeed / ofWord p.zLowSpeed

theorem one_le_speedRatio (hpos : 0 < p.zLowSpeed.toNat) (h : p.zLowSpeed ≤ p.zHighSpeed) :
    Ascending 1 p.speedRatio := by
  rw [← ratio_self hpos]
  exact ascending_ratio hpos h

theorem speedRatio_le_one (hpos : 0 < p.zLowSpeed.toNat) (h : p.zHighSpeed ≤ p.zLowSpeed) :
    Ascending p.speedRatio 1 := by
  rw [← ratio_self hpos]
  exact ascending_ratio hpos h

theorem zLowAcceleration_eq (ha : p.acceleration = some a) (hz : p.zLowAcceleration = some z) :
    z = (ofWord a.zMax / (p.speedRatio * p.speedRatio)).toUInt32 := by
  rw [zLowAcceleration, ha] at hz
  exact (Option.some.inj hz).symm

/-- At a low speed that is not above the high one the acceleration is lowered. -/
theorem zLowAcceleration_le (hpos : 0 < p.zLowSpeed.toNat) (h : p.zLowSpeed ≤ p.zHighSpeed)
    (ha : p.acceleration = some a) (hz : p.zLowAcceleration = some z) : z ≤ a.zMax := by
  obtain ⟨fits, hword⟩ := ofWord_finite a.zMax
  have hle := ((one_le_speedRatio hpos h).one_square.div_le fits).toUInt32
  rw [← hword, ← zLowAcceleration_eq ha hz] at hle
  rw [← toUInt32_ofNat a.zMax]
  exact hle

/-- At a low speed that is not below the high one it is raised. -/
theorem le_zLowAcceleration (hpos : 0 < p.zLowSpeed.toNat) (h : p.zHighSpeed ≤ p.zLowSpeed)
    (ha : p.acceleration = some a) (hmax : 0 < a.zMax.toNat) (hz : p.zLowAcceleration = some z) :
    a.zMax ≤ z := by
  obtain ⟨fits, hword⟩ := ofWord_finite a.zMax
  have hunits : 0 < a.zMax.toNat * unitsInOne := Nat.mul_pos hmax unitsInOne_pos
  have hle := ((speedRatio_le_one hpos h).square_one.le_div fits hunits).toUInt32
  rw [← hword, ← zLowAcceleration_eq ha hz] at hle
  rw [← toUInt32_ofNat a.zMax]
  exact hle

end Parameters

/-! ## The check -/

/-- No limit of an axis is zero. -/
structure AxisAcceleration.Positive (a : AxisAcceleration) : Prop where
  x : a.x ≠ 0
  y : a.y ≠ 0
  zMax : a.zMax ≠ 0

namespace Parameters

/-- Each value of the parameters, taken by itself, can be worked with. -/
structure EachUsable (p : Parameters) : Prop where
  jump : p.jumpSpeed ≠ 0
  stitch : p.stitchSpeed ≠ 0
  zLow : p.zLowSpeed ≠ 0
  zHigh : p.zHighSpeed ≠ 0
  acceleration : ∀ a, p.acceleration = some a → a.Positive
  scaling : p.scalingFactor.isFinite = true ∧ ¬p.scalingFactor ≤ 0
  clearance : ∀ c, p.clearance = some c → c.isFinite = true ∧ ¬c < 0
  progress : p.progressStep ≠ 0

variable {p : Parameters} {a : AxisAcceleration}

theorem requirePositive_eq_ok_iff {name : String} {value : UInt32} :
    requirePositive name value = .ok () ↔ value ≠ 0 := by
  rw [requirePositive, reject_eq_ok_iff]
  exact ⟨fun h => h.1, fun h => ⟨h, rfl⟩⟩

theorem checkScaling_iff :
    p.checkScaling = .ok () ↔ p.scalingFactor.isFinite = true ∧ ¬p.scalingFactor ≤ 0 := by
  rw [checkScaling, reject_eq_ok_iff, reject_eq_ok_iff, Bool.not_eq_true', Bool.not_eq_false]
  exact ⟨fun h => ⟨h.1, h.2.1⟩, fun h => ⟨h.1, h.2, rfl⟩⟩

theorem checkClearance_iff :
    p.checkClearance = .ok () ↔ ∀ c, p.clearance = some c → c.isFinite = true ∧ ¬c < 0 := by
  unfold checkClearance
  cases p.clearance with
  | none => exact ⟨fun _ c hc => (nomatch hc), fun _ => rfl⟩
  | some c =>
    dsimp only
    rw [reject_eq_ok_iff, reject_eq_ok_iff, Bool.not_eq_true', Bool.not_eq_false]
    constructor
    · rintro ⟨hfinite, hsign, -⟩ c' hc'
      rw [← Option.some.inj hc']
      exact ⟨hfinite, hsign⟩
    · intro h
      obtain ⟨hfinite, hsign⟩ := h c rfl
      exact ⟨hfinite, hsign, rfl⟩

/-- With positive limits all that is left is the acceleration at low speed. -/
theorem checkAcceleration_eq (ha : p.acceleration = some a) (hpos : a.Positive) :
    p.checkAcceleration = if p.zLowAcceleration = some 0
      then .error (.zTooSlow a.zMax p.zLowSpeed p.zHighSpeed) else .ok () := by
  rw [checkAcceleration, ha]
  dsimp only
  rw [requirePositive_eq_ok_iff.2 hpos.x, requirePositive_eq_ok_iff.2 hpos.y,
    requirePositive_eq_ok_iff.2 hpos.zMax]
  rfl

theorem checkAcceleration_iff : p.checkAcceleration = .ok () ↔
    (∀ a, p.acceleration = some a → a.Positive) ∧ p.zLowAcceleration ≠ some 0 := by
  cases ha : p.acceleration with
  | none =>
    have hz : p.zLowAcceleration = none := by
      rw [zLowAcceleration, ha]
      rfl
    rw [checkAcceleration, ha, hz]
    constructor
    · intro _
      exact ⟨fun a h => absurd h.symm (Option.some_ne_none a), (Option.some_ne_none 0).symm⟩
    · intro _
      rfl
  | some a =>
    constructor
    · intro h
      have hpos : a.Positive := by
        rw [checkAcceleration, ha] at h
        obtain ⟨hx, h⟩ := andThen_eq_ok_iff.1 h
        obtain ⟨hy, h⟩ := andThen_eq_ok_iff.1 h
        obtain ⟨hmax, -⟩ := andThen_eq_ok_iff.1 h
        exact ⟨requirePositive_eq_ok_iff.1 hx, requirePositive_eq_ok_iff.1 hy,
          requirePositive_eq_ok_iff.1 hmax⟩
      rw [checkAcceleration_eq ha hpos, reject_eq_ok_iff] at h
      exact ⟨fun b hb => Option.some.inj hb ▸ hpos, h.1⟩
    · rintro ⟨hpos, hne⟩
      rw [checkAcceleration_eq ha (hpos a rfl), if_neg hne]

/-- Parameters pass their check if each value is usable and the needle axis is not too slow. -/
theorem check_iff : p.check = .ok () ↔ p.EachUsable ∧ p.zLowAcceleration ≠ some 0 := by
  simp only [check, andThen_eq_ok_iff, checkScaling_iff, requirePositive_eq_ok_iff,
    checkAcceleration_iff, checkClearance_iff]
  constructor
  · rintro ⟨hscaling, hjump, hstitch, hlow, hhigh, ⟨hpos, hne⟩, hclearance, hprogress⟩
    exact ⟨⟨hjump, hstitch, hlow, hhigh, hpos, hscaling, hclearance, hprogress⟩, hne⟩
  · rintro ⟨h, hne⟩
    exact ⟨h.scaling, h.jump, h.stitch, h.zLow, h.zHigh, ⟨h.acceleration, hne⟩, h.clearance,
      h.progress⟩

/-- Where each value is usable, the check is that of the accelerations. -/
theorem EachUsable.check_eq (h : p.EachUsable) : p.check = p.checkAcceleration := by
  rw [check, checkScaling_iff.2 h.scaling, requirePositive_eq_ok_iff.2 h.jump,
    requirePositive_eq_ok_iff.2 h.stitch, requirePositive_eq_ok_iff.2 h.zLow,
    requirePositive_eq_ok_iff.2 h.zHigh, checkClearance_iff.2 h.clearance,
    requirePositive_eq_ok_iff.2 h.progress]
  cases p.checkAcceleration with
  | error fault => rfl
  | ok _ => rfl

/-- A high speed that is not above the low one is never too slow. -/
theorem EachUsable.zLowAcceleration_ne_zero (h : p.EachUsable) (hspeeds : p.zHighSpeed ≤ p.zLowSpeed) :
    p.zLowAcceleration ≠ some 0 := by
  intro hzero
  obtain ⟨a, ha, -⟩ := Option.map_eq_some_iff.1 hzero
  have hlow : 0 < p.zLowSpeed.toNat := UInt32.pos_iff_ne_zero.2 h.zLow
  have hmax : 0 < a.zMax.toNat := UInt32.pos_iff_ne_zero.2 (h.acceleration a ha).zMax
  have hle := le_zLowAcceleration hlow hspeeds ha hmax hzero
  exact absurd (UInt32.le_iff_toNat_le.1 hle) (Nat.not_le.2 hmax)

end Parameters

end Embroidery
