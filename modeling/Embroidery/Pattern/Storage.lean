/-
  Patterns in files.

  A pattern that has no name in its file takes that of the file, up to the last dot.
-/
import Embroidery.Files.Script
import Embroidery.Pattern.Record

namespace Embroidery

/-- Why no pattern could be had from a file. -/
inductive PatternFileError where
  | unreadable (path : Path) (why : FileFault)
  | text (error : PatternTextError)
deriving DecidableEq

/-- What there is to say about a malformed text. -/
def noPattern : String := "this is no pattern"

def PatternTextError.message : PatternTextError → String
  | .malformed => "Malformed pattern: " ++ noPattern
  | .unsound fault => fault.message

def PatternFileError.message : PatternFileError → String
  | .unreadable path why => "Failed to read pattern " ++ path.text ++ ": " ++ why.message
  | .text error => error.message

/-- The message of what lies behind an error, if anything does. -/
def PatternFileError.cause : PatternFileError → Option String
  | .unreadable _ why => some why.message
  | .text .malformed => some noPattern
  | .text (.unsound _) => none

/-- A pattern with a name, unless it has one. -/
def Pattern.named (p : Pattern) (name : Option String) : Pattern :=
  match p.name with
  | some _ => p
  | none => { p with name }

/-- The pattern in a file. -/
def Pattern.load (path : Path) : Script (Except PatternFileError Pattern) := do
  match ← Script.readText path with
  | .error why => return .error (.unreadable path why)
  | .ok text => return ((Pattern.parse text).mapError .text).map (·.named path.stem)

end Embroidery
