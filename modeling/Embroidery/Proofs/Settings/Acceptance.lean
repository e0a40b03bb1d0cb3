/-
  Settings within their limits, and the parameters that are made of them.

  The two are checked by different functions.  Both look at the values one by one
  (`Parameters.EachUsable`), and the settings have only one limit more, on the progress step
  (`Settings.check_iff`).  The parameters are also checked for a value that is made of three others:
  the acceleration of the needle axis at low speed must not round to zero (`Parameters.check_iff`).
  So settings within their limits may give parameters that are rejected, but for no other reason
  (`settings_usable_iff`, `settings_too_slow`).
-/
import Embroidery.Proofs.Parameters
import Embroidery.Proofs.Settings.Storage

namespace Embroidery

/-! ## The check -/

namespace Settings

variable {s : Settings}

theorem requireSome_eq_ok_iff {key : String} {value : UInt32} :
    requireSome key value = .ok () ↔ value ≠ 0 := by
  rw [requireSome, reject_eq_ok_iff]
  exact ⟨fun h => h.1, fun h => ⟨h, rfl⟩⟩

theorem checkAcceleration_iff {acceleration : Option AxisAcceleration} :
    checkAcceleration acceleration = .ok () ↔ ∀ a, acceleration = some a → a.Positive := by
  cases acceleration with
  | none => exact ⟨fun _ a h => (nomatch h), fun _ => rfl⟩
  | some a =>
    simp only [checkAcceleration, andThen_eq_ok_iff, requireSome_eq_ok_iff]
    constructor
    · rintro ⟨hx, hy, hmax⟩ b hb
      rw [← Option.some.inj hb]
      exact ⟨hx, hy, hmax⟩
    · intro h
      exact ⟨(h a rfl).x, (h a rfl).y, (h a rfl).zMax⟩

theorem checkScaling_iff {factor : Binary64} :
    checkScaling factor = .ok () ↔ factor.isFinite = true ∧ ¬factor ≤ 0 := by
  rw [checkScaling, reject_eq_ok_iff, Bool.or_eq_true, not_or, Bool.not_eq_true', Bool.not_eq_false,
    decide_eq_true_eq]
  exact ⟨fun h => h.1, fun h => ⟨h, rfl⟩⟩

theorem checkClearance_iff {clearance : Option Binary64} :
    checkClearance clearance = .ok () ↔
      ∀ c, clearance = some c → c.isFinite = true ∧ ¬c < 0 := by
  cases clearance with
  | none => exact ⟨fun _ c hc => (nomatch hc), fun _ => rfl⟩
  | some c =>
    rw [checkClearance, reject_eq_ok_iff, Bool.or_eq_true, not_or, Bool.not_eq_true',
      Bool.not_eq_false, decide_eq_true_eq]
    constructor
    · rintro ⟨hbounds, -⟩ c' hc'
      rw [← Option.some.inj hc']
      exact hbounds
    · intro h
      exact ⟨h c rfl, rfl⟩

theorem checkProgress_iff {step : UInt32} :
    checkProgress step = .ok () ↔ step ≠ 0 ∧ step ≤ 100 := by
  rw [checkProgress, reject_eq_ok_iff, Bool.or_eq_true, not_or, decide_eq_true_eq,
    decide_eq_true_eq, gt_iff_lt, UInt32.not_lt]
  exact ⟨fun h => h.1, fun h => ⟨h, rfl⟩⟩

/-- Settings are within their limits if each value of their parameters is usable and the progress
    step is at most a hundred. -/
theorem check_iff :
    s.check = .ok () ↔ s.parameters.EachUsable ∧ s.generation.progressStep ≤ 100 := by
  simp only [check_eq_ok_iff, checkMachine, checkGeneration, andThen_eq_ok_iff,
    requireSome_eq_ok_iff, checkAcceleration_iff, checkScaling_iff, checkClearance_iff,
    checkProgress_iff]
  constructor
  · rintro ⟨⟨hjump, hstitch, hlow, hhigh, hpos⟩, hscaling, hclearance, hprogress, hle⟩
    exact ⟨⟨hjump, hstitch, hlow, hhigh, hpos, hscaling, hclearance, hprogress⟩, hle⟩
  · rintro ⟨h, hle⟩
    exact ⟨⟨h.jump, h.stitch, h.zLow, h.zHigh, h.acceleration⟩, h.scaling, h.clearance,
      h.progress, hle⟩

end Settings

/-- **Settings within their limits are of use**, unless the needle axis is too slow: their
    parameters are sound exactly if the acceleration at low speed is not zero, and that is the only
    fault they can have.  They have none if the high speed is not above the low one, or if no
    acceleration is set. -/
theorem settings_usable_iff {s : Settings} (h : s.check = .ok ()) :
    (s.parameters.check = .ok () ↔ s.parameters.zLowAcceleration ≠ some 0) ∧
      (∀ fault, s.parameters.check = .error fault → ∃ a, s.machine.acceleration = some a ∧
        fault = .zTooSlow a.zMax s.machine.zLowSpeed s.machine.zHighSpeed) ∧
      (s.machine.acceleration = none ∨ s.machine.zHighSpeed ≤ s.machine.zLowSpeed →
        s.parameters.check = .ok ()) := by
  obtain ⟨husable, -⟩ := Settings.check_iff.1 h
  have hcheck_iff : s.parameters.check = .ok () ↔ s.parameters.zLowAcceleration ≠ some 0 :=
    Parameters.check_iff.trans (and_iff_right husable)
  refine ⟨hcheck_iff, ?_, ?_⟩
  · intro fault hfault
    rw [husable.check_eq] at hfault
    cases ha : s.parameters.acceleration with
    | none =>
      rw [Parameters.checkAcceleration, ha] at hfault
      cases hfault
    | some a =>
      rw [Parameters.checkAcceleration_eq ha (husable.acceleration a ha)] at hfault
      split at hfault
      · exact ⟨a, ha, (Except.error.inj hfault).symm⟩
      · cases hfault
  · rintro (hnone | hspeeds)
    · have hz : s.parameters.zLowAcceleration = none := congrArg (Option.map _) hnone
      exact hcheck_iff.2 (hz ▸ (Option.some_ne_none 0).symm)
    · exact hcheck_iff.2 (husable.zLowAcceleration_ne_zero hspeeds)

/-- Settings with another limit of the needle axis, at which it still moves at low speed. -/
theorem settings_just_fast_enough :
    let s : Settings := { machine.acceleration := some ⟨300, 500, 9⟩ }
    s.check = .ok () ∧ s.parameters.check = .ok () := by
  intro s
  have hcheck : s.check = .ok () := ok_of_toOption (by decide +kernel)
  exact ⟨hcheck, (settings_usable_iff hcheck).1.2 (by decide +kernel)⟩

/-- At the speeds 200 and 600 a limit of 8 leaves less than one at low speed. -/
theorem settings_too_slow :
    let s : Settings := { machine.acceleration := some ⟨300, 500, 8⟩ }
    s.check = .ok () ∧ s.parameters.check = .error (.zTooSlow 8 200 600) := by
  intro s
  have hcheck : s.check = .ok () := ok_of_toOption (by decide +kernel)
  obtain ⟨husable, -⟩ := Settings.check_iff.1 hcheck
  have hzero : s.parameters.zLowAcceleration = some 0 := by decide +kernel
  refine ⟨hcheck, ?_⟩
  rw [husable.check_eq, Parameters.checkAcceleration_eq (a := ⟨300, 500, 8⟩) rfl
    (husable.acceleration _ rfl), if_pos hzero]
  rfl

end Embroidery
