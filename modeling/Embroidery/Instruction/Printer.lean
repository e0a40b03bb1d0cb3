/-
  The line of an instruction.

  Words are separated by one space; a part that is absent is not written.  The text of a comment and
  of a foreign code is written as it is.
-/
import Embroidery.Units
import Embroidery.Instruction.Basic

namespace Embroidery

/-- A word behind the command: a space, a letter, and its value. -/
def wordChars (letter : Char) (value : List Char) : List Char := ' ' :: letter :: value

/-- A word that is written only if it has a value. -/
def optionalWord (letter : Char) (value : Option (List Char)) : List Char :=
  match value with
  | some v => wordChars letter v
  | none => []

/-- The digits of a machine word. -/
def wordDigits (n : UInt32) : List Char := naturalChars n.toNat

namespace Instruction

/-- The characters of the line, without its end. -/
def chars : Instruction → List Char
  | .comment text => ';' :: ' ' :: text.toList
  | .move kind target =>
    (match kind with | .free => "G0".toList | .sewing => "G1".toList)
      ++ optionalWord 'X' (target.x.map coordinateChars)
      ++ optionalWord 'Y' (target.y.map coordinateChars)
      ++ optionalWord 'F' (target.feed.map wordDigits)
  | .dwell millis => "G4".toList ++ wordChars 'P' (wordDigits millis)
  | .pause code => "M0".toList ++ wordChars 'C' (integerChars code.code)
  | .needleCycle speed =>
    "M3".toList ++ optionalWord 'S' (speed.map wordDigits) ++ wordChars 'I' ['1']
  | .spindleStop => "M5".toList
  | .motors on => if on then "M17".toList else "M18".toList
  | .tension on => if on then "M42".toList else "M41".toList
  | .progress percent => "M73".toList ++ wordChars 'P' (naturalChars percent.toNat)
  | .acceleration x y z =>
    "M201".toList ++ optionalWord 'X' (x.map wordDigits) ++ optionalWord 'Y' (y.map wordDigits)
      ++ optionalWord 'Z' (z.map wordDigits)
  | .other text => text.toList

/-- The line, without its end. -/
def text (i : Instruction) : String := String.ofList i.chars

end Instruction
end Embroidery
