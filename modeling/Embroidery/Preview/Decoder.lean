/-
  From a program back to stitched points.

  The preview of a program is a list of groups, one for each colour that had its thread inserted.  A
  decoder reads the program line by line:

    * a pause that starts a colour ends the running colour and starts the next;
    * the pause for thread insertion marks the running colour as threaded;
    * sewing moves of a running, threaded colour are its points;
    * free moves only change the position, and all other lines change nothing.

  A move that leaves an axis out keeps the last position on it.
-/
import Embroidery.Geometry
import Embroidery.Instruction.Parser
import Embroidery.Preview.Color
import Embroidery.Text.Lines

namespace Embroidery

/-! ## Previews -/

/-- The points sewn in one colour. -/
structure ColorGroup where
  number : Nat
  color : Color
  points : List Point
deriving DecidableEq

structure Preview where
  groups : List ColorGroup
deriving DecidableEq

namespace Preview

/-- All points, in the order in which they are sewn. -/
def points (p : Preview) : List Point := p.groups.flatMap ColorGroup.points

/-- The box of all points. -/
def bounds (p : Preview) : Option Bounds := Bounds.ofPoints p.points

def pointCount (p : Preview) : Nat := p.points.length

end Preview

/-! ## The decoder -/

/-- What a decoder remembers between two lines. -/
structure Decoder where
  /-- The number of the running colour. -/
  number : Nat
  /-- A colour has been started. -/
  started : Bool
  /-- The thread of the running colour has been inserted. -/
  threaded : Bool
  position : Point
  /-- The points of the running colour. -/
  pending : Array Point
  /-- The groups of the colours that have ended. -/
  sealed : Array ColorGroup

namespace Decoder

def start : Decoder where
  number := 0
  started := false
  threaded := false
  position := origin
  pending := #[]
  sealed := #[]

/-- Close the group of the running colour. -/
def closeGroup (palette : Palette) (d : Decoder) : Decoder :=
  { d with
    pending := #[]
    sealed := d.sealed.push ⟨d.number, palette d.number, d.pending.toList⟩ }

/-- Where a move from the present position goes. -/
def reach (d : Decoder) (target : Target) : Point where
  x := target.x.getD d.position.x
  y := target.y.getD d.position.y

/-- End the running colour, if there is one, and start the next. -/
def startColor (palette : Palette) (d : Decoder) : Decoder :=
  if !d.started then { d with started := true, threaded := false }
  else
    let closed := if d.threaded then d.closeGroup palette else { d with pending := #[] }
    { closed with number := d.number + 1, threaded := false }

/-- Follow one instruction. -/
def apply (palette : Palette) (d : Decoder) : Instruction → Decoder
  | .move .sewing target =>
    let p := d.reach target
    { d with
      position := p
      pending := if d.started && d.threaded then d.pending.push p else d.pending }
  | .move .free target => { d with position := d.reach target }
  | .pause (.colorStart _) => d.startColor palette
  | .pause .threadInserted => { d with threaded := true }
  | _ => d

/-- Follow one line; a line that is no instruction is passed over. -/
def readLine (palette : Palette) (d : Decoder) (line : String) : Decoder :=
  match Instruction.parse line with
  | .ok i => d.apply palette i
  | .error _ => d

/-- The preview once the program has ended. -/
def finish (palette : Palette) (d : Decoder) : Preview :=
  ⟨(if d.started && d.threaded then d.closeGroup palette else d).sealed.toList⟩

end Decoder

/-- The preview of a program given as lines. -/
def decodeLines (palette : Palette) (lines : List String) : Preview :=
  (lines.foldl (Decoder.readLine palette) Decoder.start).finish palette

/-- The preview of a program given as text. -/
def decodeText (palette : Palette) (text : String) : Preview := decodeLines palette (linesOf text)

/-- The line asks for the start of a colour. -/
def startsColor (line : String) : Bool :=
  match Instruction.parse line with
  | .ok (.pause (.colorStart _)) => true
  | _ => false

/-- The number of colour starts in a program. -/
def countColorStarts (lines : List String) : Nat := lines.countP startsColor

end Embroidery
