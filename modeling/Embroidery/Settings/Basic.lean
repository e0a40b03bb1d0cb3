/-
  Settings of the machine and of generation, kept between runs.

  Settings are checked with their own limits (`Settings.check`), which name the first value out of
  range.  They also remember the patterns that were used last, each once, the newest first.
-/
import Embroidery.Files.Path
import Embroidery.Parameters

namespace Embroidery

structure MachineSettings where
  jumpSpeed : UInt32 := 3000
  stitchSpeed : UInt32 := 800
  zLowSpeed : UInt32 := 200
  zHighSpeed : UInt32 := 600
  /-- Left out to leave the machine's own limits alone. -/
  acceleration : Option AxisAcceleration := some ⟨300, 500, 2000⟩
deriving DecidableEq

structure GenerationSettings where
  /-- Pattern units in one machine unit. -/
  scalingFactor : Binary64 := 10
  /-- The least distance between two stitches that are sewn, in machine units. -/
  clearance : Option Binary64 := none
  visitCorners : Bool := false
  /-- The least change of the progress that is reported, in percent. -/
  progressStep : UInt32 := 1
deriving DecidableEq

structure Settings where
  recentFiles : List Path := []
  machine : MachineSettings := {}
  generation : GenerationSettings := {}
deriving DecidableEq

/-- What is wrong with settings, or with the name of their file. -/
inductive SettingsFault where
  | unknownFormat (extension : Option String)
  | outOfRange (key value : String)
deriving DecidableEq

def SettingsFault.message : SettingsFault → String
  | .unknownFormat extension => "Unsupported config format: " ++ extension.getD "<none>"
  | .outOfRange key value => "Value out of range for '" ++ key ++ "': " ++ value

namespace Settings

/-! ## Limits -/

/-- A word that must not be zero. -/
def requireSome (key : String) (value : UInt32) : Except SettingsFault Unit :=
  if value = 0 then .error (.outOfRange key (wordText value)) else .ok ()

def checkAcceleration : Option AxisAcceleration → Except SettingsFault Unit
  | none => .ok ()
  | some a => do
    requireSome "machine.acceleration.x" a.x
    requireSome "machine.acceleration.y" a.y
    requireSome "machine.acceleration.z_max" a.zMax

def checkMachine (m : MachineSettings) : Except SettingsFault Unit := do
  requireSome "machine.jump_speed" m.jumpSpeed
  requireSome "machine.stitch_speed" m.stitchSpeed
  requireSome "machine.z_low_speed" m.zLowSpeed
  requireSome "machine.z_high_speed" m.zHighSpeed
  checkAcceleration m.acceleration

def checkScaling (factor : Binary64) : Except SettingsFault Unit :=
  if !factor.isFinite || factor ≤ 0 then
    .error (.outOfRange "generation.scaling_factor" (messageStyle.text factor))
  else .ok ()

def checkClearance : Option Binary64 → Except SettingsFault Unit
  | none => .ok ()
  | some c =>
    if !c.isFinite || c < 0 then
      .error (.outOfRange "generation.clearance" (messageStyle.text c))
    else .ok ()

def checkProgress (step : UInt32) : Except SettingsFault Unit :=
  if step = 0 || step > 100 then .error (.outOfRange "generation.progress_step" (wordText step))
  else .ok ()

def checkGeneration (g : GenerationSettings) : Except SettingsFault Unit := do
  checkScaling g.scalingFactor
  checkClearance g.clearance
  checkProgress g.progressStep

/-- The first value out of range, in a fixed order of the keys. -/
def check (s : Settings) : Except SettingsFault Unit := do
  checkMachine s.machine
  checkGeneration s.generation

/-! ## Use -/

/-- How many patterns are remembered. -/
def recentLimit : Nat := 10

/-- A path at the front of a list, and only there. -/
def moveToFront (path : Path) (paths : List Path) : List Path :=
  path :: paths.filter fun q => !q.same path

/-- Remember a pattern as the newest. -/
def addRecent (s : Settings) (path : Path) : Settings :=
  { s with recentFiles := (moveToFront path s.recentFiles).take recentLimit }

/-- What programs are generated with under these settings. -/
def parameters (s : Settings) : Parameters where
  jumpSpeed := s.machine.jumpSpeed
  stitchSpeed := s.machine.stitchSpeed
  zLowSpeed := s.machine.zLowSpeed
  zHighSpeed := s.machine.zHighSpeed
  acceleration := s.machine.acceleration
  clearance := s.generation.clearance
  scalingFactor := s.generation.scalingFactor
  visitCorners := s.generation.visitCorners
  progressStep := s.generation.progressStep

end Settings
end Embroidery
