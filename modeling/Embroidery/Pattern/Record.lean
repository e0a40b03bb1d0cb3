/-
  Reading a stitch pattern.

  The file is a JSON record of a name, which may be missing, and the list of events.  The kind of an
  event is its name, or a table with that name as its only key and null behind it.
-/
import Embroidery.Document.Json.Reader
import Embroidery.Pattern.Basic

namespace Embroidery

/-- The kind with a given name. -/
def StitchKind.ofName (name : String) : Option StitchKind :=
  if name = "JUMP" then some .jump
  else if name = "STITCH" then some .stitch
  else if name = "COLOR_CHANGE" then some .colorChange
  else if name = "TRIM" then some .trim
  else if name = "END" then some .finish
  else none

def StitchKind.ofDocument : Document → Option StitchKind
  | .string name => ofName name
  | .table [(some name, .null)] => ofName name
  | _ => none

def StitchEvent.ofDocument (d : Document) : Option StitchEvent := do
  match ← d.record false ["index", "x", "y", "kind"] with
  | [index, x, y, kind] =>
    let index ← Document.required (·.asNatBelow UInt64.size) index
    let x ← Document.required Document.asFloat x
    let y ← Document.required Document.asFloat y
    let kind ← Document.required StitchKind.ofDocument kind
    return ⟨index, x, y, kind⟩
  | _ => none

def Pattern.ofDocument (d : Document) : Option Pattern := do
  match ← d.record false ["name", "stitches"] with
  | [name, stitches] =>
    let name ← Document.orDefault none (Document.optional Document.asString) name
    let events ← Document.required (Document.asList StitchEvent.ofDocument) stitches
    return ⟨name, events⟩
  | _ => none

/-- Why a text is no sound pattern. -/
inductive PatternTextError where
  | malformed
  | unsound (fault : PatternFault)
deriving DecidableEq

/-- The sound pattern that a text holds. -/
def Pattern.parse (text : String) : Except PatternTextError Pattern :=
  match (Json.read text).bind Pattern.ofDocument with
  | none => .error .malformed
  | some p =>
    match p.check with
    | .ok p => .ok p
    | .error fault => .error (.unsound fault)

end Embroidery
