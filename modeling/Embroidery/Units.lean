/-
  Machine units.

  Positions are kept and written with two places: they are rounded before they are compared, so
  equal stitches stay equal.  A rounded zero has no sign.
-/
import Embroidery.Number.Digits

namespace Embroidery

/-- The number of places of a machine coordinate. -/
def coordinatePlaces : Nat := 2

/-- `value` to a number of decimal places, halves away from zero; a zero loses its sign. -/
def roundTo (places : Int) (value : Binary64) : Binary64 :=
  let factor := Binary64.powInt 10 places
  let rounded := (value * factor).round / factor
  if rounded.eq 0 then 0 else rounded

/-- A pattern coordinate in machine units, `factor` pattern units being one machine unit. -/
def toMachine (factor raw : Binary64) : Binary64 := roundTo coordinatePlaces (raw / factor)

/-- The text of a coordinate. -/
def coordinateChars (value : Binary64) : List Char :=
  fixedChars coordinatePlaces (roundTo coordinatePlaces value)

/-- `x` carried from one range to another, the fraction dropped.  An empty range goes to the start
    of the other. -/
def remap (x inMin inMax outMin outMax : Binary64) : Int :=
  if inMax.eq inMin then outMin.toInt64
  else ((x - inMin) * (outMax - outMin) / (inMax - inMin) + outMin).toInt64

example : coordinateChars (Binary64.ofInt (-1) / 1000) = "0.00".toList := by decide +kernel
example : remap 2 0 3 0 100 = 66 := by decide +kernel

end Embroidery
