/-
  What a program is generated with.

  Speeds and accelerations are machine words.  `Parameters.check` names the first value that cannot
  be worked with.  The needle axis runs at two speeds; at the low one its acceleration is lowered by
  the square of the ratio of the speeds.
-/
import Embroidery.Number.Digits

namespace Embroidery

/-- The limits of the axes; `zMax` is that of the needle axis at high speed. -/
structure AxisAcceleration where
  x : UInt32
  y : UInt32
  zMax : UInt32
deriving DecidableEq

structure Parameters where
  jumpSpeed : UInt32 := 3000
  stitchSpeed : UInt32 := 800
  zLowSpeed : UInt32 := 200
  zHighSpeed : UInt32 := 600
  acceleration : Option AxisAcceleration := none
  /-- The least distance between two stitches that are sewn, in machine units. -/
  clearance : Option Binary64 := none
  /-- Pattern units in one machine unit. -/
  scalingFactor : Binary64 := 10
  /-- Visit the corners of the bounding box before sewing. -/
  visitCorners : Bool := false
  /-- The least change of the progress that is reported, in percent. -/
  progressStep : UInt32 := 5
deriving DecidableEq

/-- Why parameters cannot be worked with. -/
inductive ParameterFault where
  | notPositive (name : String) (value : Binary64)
  | notFinite (name : String)
  | zTooSlow (zMax low high : UInt32)
  | negativeClearance (value : Binary64)
deriving DecidableEq

/-- The digits of a machine word, as text. -/
def wordText (n : UInt32) : String := String.ofList (naturalChars n.toNat)

def ParameterFault.message : ParameterFault → String
  | .notPositive name value =>
    "Parameter '" ++ name ++ "' must be positive, got " ++ messageStyle.text value
  | .notFinite name => "Parameter '" ++ name ++ "' must be finite"
  | .zTooSlow zMax low high =>
    "Invalid value for 'acceleration.z_max': " ++ wordText zMax ++ " is too small for speeds "
      ++ wordText low ++ "/" ++ wordText high ++ ", low-speed Z acceleration rounds to 0"
  | .negativeClearance value =>
    "Invalid value for 'clearance': must not be negative, got " ++ messageStyle.text value

/-- A machine word as a double; always exact. -/
def ofWord (n : UInt32) : Binary64 := Binary64.ofNat n.toNat

namespace Parameters

/-- Parameters that report every percent and set accelerations. -/
def detailed : Parameters := { acceleration := some ⟨300, 500, 2000⟩, progressStep := 1 }

/-- The clearance in force; none is zero. -/
def effectiveClearance (p : Parameters) : Binary64 := p.clearance.getD 0

/-- The acceleration of the needle axis at low speed, the fraction dropped. -/
def zLowAcceleration (p : Parameters) : Option UInt32 :=
  p.acceleration.map fun a =>
    let ratio := ofWord p.zHighSpeed / ofWord p.zLowSpeed
    (ofWord a.zMax / (ratio * ratio)).toUInt32

/-- The acceleration of the needle axis at high speed. -/
def zHighAcceleration (p : Parameters) : Option UInt32 := p.acceleration.map AxisAcceleration.zMax

/-! ## Soundness -/

/-- A word that must not be zero. -/
def requirePositive (name : String) (value : UInt32) : Except ParameterFault Unit :=
  if value = 0 then .error (.notPositive name 0) else .ok ()

def checkScaling (p : Parameters) : Except ParameterFault Unit :=
  if !p.scalingFactor.isFinite then .error (.notFinite "scaling_factor")
  else if p.scalingFactor ≤ 0 then .error (.notPositive "scaling_factor" p.scalingFactor)
  else .ok ()

def checkAcceleration (p : Parameters) : Except ParameterFault Unit :=
  match p.acceleration with
  | none => .ok ()
  | some a => do
    requirePositive "acceleration.x" a.x
    requirePositive "acceleration.y" a.y
    requirePositive "acceleration.z_max" a.zMax
    if p.zLowAcceleration = some 0 then .error (.zTooSlow a.zMax p.zLowSpeed p.zHighSpeed)
    else .ok ()

def checkClearance (p : Parameters) : Except ParameterFault Unit :=
  match p.clearance with
  | none => .ok ()
  | some c =>
    if !c.isFinite then .error (.notFinite "clearance")
    else if c < 0 then .error (.negativeClearance c)
    else .ok ()

/-- The first fault, in a fixed order of the parameters. -/
def check (p : Parameters) : Except ParameterFault Unit := do
  p.checkScaling
  requirePositive "jump_speed" p.jumpSpeed
  requirePositive "stitch_speed" p.stitchSpeed
  requirePositive "z_low_speed" p.zLowSpeed
  requirePositive "z_high_speed" p.zHighSpeed
  p.checkAcceleration
  p.checkClearance
  requirePositive "progress_step" p.progressStep

end Parameters
end Embroidery
