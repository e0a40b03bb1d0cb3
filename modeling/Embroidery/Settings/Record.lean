/-
  Settings as a document.

  Every field may be left out and then has its default, but for the three limits of an acceleration.
  Two fields may be null: they are options.
-/
import Embroidery.Document.Basic
import Embroidery.Settings.Basic

namespace Embroidery

open Document (orDefault required optional asList asWord asFloat asBool asString)

/-! ## Writing -/

def AxisAcceleration.toDocument (a : AxisAcceleration) : Document :=
  .table
    [(some "x", .integer a.x.toNat), (some "y", .integer a.y.toNat),
     (some "z_max", .integer a.zMax.toNat)]

def MachineSettings.toDocument (m : MachineSettings) : Document :=
  .table
    [(some "jump_speed", .integer m.jumpSpeed.toNat),
     (some "stitch_speed", .integer m.stitchSpeed.toNat),
     (some "z_low_speed", .integer m.zLowSpeed.toNat),
     (some "z_high_speed", .integer m.zHighSpeed.toNat),
     (some "acceleration", (m.acceleration.map AxisAcceleration.toDocument).getD .null)]

def GenerationSettings.toDocument (g : GenerationSettings) : Document :=
  .table
    [(some "scaling_factor", .float g.scalingFactor),
     (some "clearance", (g.clearance.map .float).getD .null),
     (some "visit_corners", .bool g.visitCorners),
     (some "progress_step", .integer g.progressStep.toNat)]

/-- The members of the document of settings. -/
def Settings.members (s : Settings) : List (Option String × Document) :=
  [(some "recent_files", .list (s.recentFiles.map fun p => .string p.text)),
   (some "machine", s.machine.toDocument),
   (some "generation", s.generation.toDocument)]

/-! ## Reading

`surplus` is that of `Document.record`. -/

def AxisAcceleration.ofDocument (surplus : Bool) (d : Document) : Option AxisAcceleration := do
  match ← d.record surplus ["x", "y", "z_max"] with
  | [x, y, zMax] =>
    let x ← required asWord x
    let y ← required asWord y
    let zMax ← required asWord zMax
    return ⟨x, y, zMax⟩
  | _ => none

def MachineSettings.ofDocument (surplus : Bool) (d : Document) : Option MachineSettings := do
  let fallback : MachineSettings := {}
  match ← d.record surplus
      ["jump_speed", "stitch_speed", "z_low_speed", "z_high_speed", "acceleration"] with
  | [jump, stitch, zLow, zHigh, acceleration] =>
    let jump ← orDefault fallback.jumpSpeed asWord jump
    let stitch ← orDefault fallback.stitchSpeed asWord stitch
    let zLow ← orDefault fallback.zLowSpeed asWord zLow
    let zHigh ← orDefault fallback.zHighSpeed asWord zHigh
    let acceleration ←
      orDefault fallback.acceleration (optional (AxisAcceleration.ofDocument surplus)) acceleration
    return ⟨jump, stitch, zLow, zHigh, acceleration⟩
  | _ => none

def GenerationSettings.ofDocument (surplus : Bool) (d : Document) : Option GenerationSettings := do
  let fallback : GenerationSettings := {}
  match ← d.record surplus
      ["scaling_factor", "clearance", "visit_corners", "progress_step"] with
  | [scaling, clearance, corners, progress] =>
    let scaling ← orDefault fallback.scalingFactor asFloat scaling
    let clearance ← orDefault fallback.clearance (optional asFloat) clearance
    let corners ← orDefault fallback.visitCorners asBool corners
    let progress ← orDefault fallback.progressStep asWord progress
    return ⟨scaling, clearance, corners, progress⟩
  | _ => none

def Path.ofDocument (d : Document) : Option Path := d.asString.map Path.mk

def Settings.ofDocument (surplus : Bool) (d : Document) : Option Settings := do
  match ← d.record surplus ["recent_files", "machine", "generation"] with
  | [recent, machine, generation] =>
    let recent ← orDefault [] (asList Path.ofDocument) recent
    let machine ← orDefault {} (MachineSettings.ofDocument surplus) machine
    let generation ← orDefault {} (GenerationSettings.ofDocument surplus) generation
    return ⟨recent, machine, generation⟩
  | _ => none

end Embroidery
