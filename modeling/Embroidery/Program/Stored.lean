/-
  Programs in files.

  A program file is read line by line into a sink.  A line ends at a line feed or at the end of the
  file; one carriage return before that is dropped, and bytes that are no text stand as U+FFFD.
-/
import Embroidery.Files.Script
import Embroidery.Preview.Decoder
import Embroidery.Program.Sink
import Embroidery.Text.Utf8

namespace Embroidery

/-! ## Lines -/

/-- The lines of a file. -/
def fileLines (content : ByteArray) : List String :=
  (cutLines (· == 0x0A) content.data.toList).map fun (piece, _) =>
    lossyText (dropLastIf (· == 0x0D) piece)

/-- What was read of a file. -/
structure ReadStats where
  bytes : Nat
  lines : Nat
  fileSize : Nat
deriving DecidableEq

/-! ## Files -/

/-- A file that was there, with its size then. -/
structure ProgramFile where
  path : Path
  size : Nat
deriving DecidableEq

/-- Why a program file was not read to its end. -/
inductive ProgramReadError (cause : Type) where
  | missing (path : Path)
  | noFile (path : Path)
  | unreadable (why : FileFault)
  | stopped (why : cause)

def ProgramReadError.message {cause : Type} (describe : cause → String) :
    ProgramReadError cause → String
  | .missing path => "File does not exist: " ++ path.text
  | .noFile path => "Path is not a file: " ++ path.text
  | .unreadable why => why.message
  | .stopped why => describe why

namespace ProgramFile

/-- The program file at a path. -/
def find {cause : Type} (path : Path) : Script (Except (ProgramReadError cause) ProgramFile) := do
  match ← Script.look path with
  | none => return .error (.missing path)
  | some .folder => return .error (.noFile path)
  | some (.file size) => return .ok ⟨path, size⟩

/-- Hand the lines of the file to a sink.  The first part of the answer is what the sink holds
    afterwards, also when it refused a line. -/
def readInto {held cause : Type} (sink : Sink held cause) (h : held) (file : ProgramFile) :
    Script (held × Except (ProgramReadError cause) ReadStats) := do
  match ← Script.read file.path with
  | .error why => return (h, .error (.unreadable why))
  | .ok content =>
    let lines := fileLines content
    match sink.takeAll h lines with
    | (h, some why) => return (h, .error (.stopped why))
    | (h, none) => return (h, .ok ⟨content.size, lines.length, file.size⟩)

/-- The number of colour starts in the file. -/
def countColors (file : ProgramFile) : Script (Except (ProgramReadError Empty) Nat) := do
  let count := Sink.following fun (n : Nat) line => if startsColor line then n + 1 else n
  let (n, result) ← file.readInto count 0
  return result.map fun _ => n

/-- The preview of the program in the file. -/
def decode (palette : Palette) (file : ProgramFile) :
    Script (Except (ProgramReadError Empty) Preview) := do
  let (d, result) ← file.readInto (.following (Decoder.readLine palette)) Decoder.start
  return result.map fun _ => d.finish palette

end ProgramFile

/-- The preview of the program at a path in the hues of the given number of colours, by default of
    the colours that the program starts. -/
def previewFile (path : Path) (colors : Option Nat) :
    Script (Except (ProgramReadError Empty) Preview) := do
  match ← ProgramFile.find path with
  | .error why => return .error why
  | .ok file =>
    match colors with
    | some n => file.decode (hueCycle n)
    | none =>
      match ← file.countColors with
      | .error why => return .error why
      | .ok n => file.decode (hueCycle n)

end Embroidery
