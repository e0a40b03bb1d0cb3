/-
  What is known of a pattern before a program is written: its extent in machine units, its colours
  and its stitches.
-/
import Embroidery.Geometry
import Embroidery.Pattern.Basic
import Embroidery.Units

namespace Embroidery

/-- The position of an event in machine units. -/
def StitchEvent.position (factor : Binary64) (e : StitchEvent) : Point :=
  ⟨toMachine factor e.x, toMachine factor e.y⟩

structure Survey where
  /-- The box of all events, whatever their kind. -/
  bounds : Option Bounds
  /-- One more than there are colour changes. -/
  colorCount : Nat
  stitchCount : Nat
deriving DecidableEq

/-- The survey of a list of events. -/
def Survey.ofEvents (factor : Binary64) (events : List StitchEvent) : Survey where
  bounds := Bounds.ofPoints (events.map (StitchEvent.position factor))
  colorCount := 1 + events.countP (·.kind = .colorChange)
  stitchCount := events.countP (·.kind = .stitch)

end Embroidery
