/-
  The instructions of the embroidery machine.

  | instruction                        | line               |
  |------------------------------------|--------------------|
  | free move                          | `G0 X.. Y.. F..`   |
  | sewing move, needle in step        | `G1 X.. Y.. F..`   |
  | dwell                              | `G4 P..`           |
  | pause for the operator             | `M0 C..`           |
  | needle cycle                       | `M3 S.. I1`        |
  | spindle stop                       | `M5`               |
  | motors on, off                     | `M17`, `M18`       |
  | thread tension off, on             | `M41`, `M42`       |
  | progress in percent                | `M73 P..`          |
  | acceleration                       | `M201 X.. Y.. Z..` |

  A pause asks the operator for something, by its sub-code: 1 to 99 to start that colour, 100 to
  insert the thread and pull it out, 101 to trim it.
-/
import Embroidery.Geometry

namespace Embroidery

/-! ## Pauses -/

/-- The highest sub-code that starts a colour. -/
def maxColor : Nat := 99

/-- What a pause asks for. -/
inductive PauseCode where
  | colorStart (color : UInt8)
  | threadInserted
  | trim
  | other (code : Int)
deriving DecidableEq

namespace PauseCode

/-- The pause with a given sub-code.  What lies strictly between 0 and 100 starts a colour, the
    fraction dropped, at least colour 1. -/
def ofValue (value : Binary64) : PauseCode :=
  if 0 < value ∧ value < 100 then .colorStart (max value.toUInt8 1)
  else if value.eq 100 then .threadInserted
  else if value.eq 101 then .trim
  else .other value.toInt64

/-- The sub-code that is written. -/
def code : PauseCode → Int
  | .colorStart color => color.toNat
  | .threadInserted => 100
  | .trim => 101
  | .other code => code

end PauseCode

/-! ## Instructions -/

/-- A free move lifts the needle out of step, a sewing move keeps it in step. -/
inductive MoveKind where
  | free
  | sewing
deriving DecidableEq

/-- Where a move goes; each part may be left out. -/
structure Target where
  x : Option Binary64
  y : Option Binary64
  feed : Option UInt32
deriving DecidableEq

/-- A move to a point at a feed rate, with nothing left out. -/
def Target.at (p : Point) (feed : UInt32) : Target := ⟨some p.x, some p.y, some feed⟩

inductive Instruction where
  | comment (text : String)
  | move (kind : MoveKind) (target : Target)
  | dwell (millis : UInt32)
  | pause (code : PauseCode)
  | needleCycle (speed : Option UInt32)
  | spindleStop
  | motors (on : Bool)
  | tension (on : Bool)
  | progress (percent : UInt8)
  | acceleration (x y z : Option UInt32)
  /-- A `G` or `M` code outside the table, kept as it stands. -/
  | other (text : String)
deriving DecidableEq

end Embroidery
