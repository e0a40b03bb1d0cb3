/-
  Artifacts: programs in files that nobody else has named.

  An artifact is made as an empty file with a fresh name, takes lines, and is finished once; the
  lines are in the file from then on.  Whoever holds an artifact owns its file: to drop the one is
  to remove the other.

  Two operations move the file on while the artifact that held it is still to be dropped.  Finishing
  takes the path out of the open artifact, and one without a path removes nothing; giving the file
  away sets a flag by which the finished artifact keeps it (`FinishedArtifact.letGo`).
-/
import Embroidery.Files.Script
import Embroidery.Program.Sink

namespace Embroidery

/-- An artifact that takes lines. -/
structure OpenArtifact where
  /-- Empty once the file was handed over. -/
  path : Path
  /-- The lines so far, each ended by a line feed. -/
  written : String
  lineCount : Nat
deriving DecidableEq

/-- An artifact whose file is complete. -/
structure FinishedArtifact where
  path : Path
deriving DecidableEq

namespace OpenArtifact

/-- Make an artifact in a folder. -/
def create (folder : Path) : Script (Except FileFault OpenArtifact) := do
  return (← Script.makeFresh folder "stitchkit-" ".gcode").map fun path => ⟨path, "", 0⟩

/-- The artifact with a further line. -/
def addLine (a : OpenArtifact) (line : String) : OpenArtifact :=
  { a with written := a.written ++ line ++ "\n", lineCount := a.lineCount + 1 }

/-- Artifacts as destinations of programs; they refuse no line. -/
def sink {cause : Type} : Sink OpenArtifact cause := .following addLine

/-- Remove the file, unless it was handed over. -/
def drop (a : OpenArtifact) : Script Unit := do
  if a.path.text = "" then return ()
  else let _ ← Script.remove a.path

/-- Complete the file and hand it over; what stays behind has no path. -/
def finish (a : OpenArtifact) : Script (Except FileFault FinishedArtifact) := do
  match ← Script.writeText a.path a.written with
  | .ok () => do
    drop { a with path := ⟨""⟩ }
    return .ok ⟨a.path⟩
  | .error why => do
    a.drop
    return .error why

end OpenArtifact

namespace FinishedArtifact

/-- Copy the program to a path; the answer is the number of bytes. -/
def exportTo (a : FinishedArtifact) (target : Path) : Script (Except FileFault Nat) :=
  Script.copy a.path target

/-- Remove the file. -/
def drop (a : FinishedArtifact) : Script Unit := do
  let _ ← Script.remove a.path

/-- Let go of the artifact, and remove the file if it is not to be kept. -/
def letGo (a : FinishedArtifact) (keep : Bool) : Script Unit :=
  if keep then return () else a.drop

/-- The path of the file, for those to whom it is given. -/
def release (a : FinishedArtifact) : Path := a.path

/-- Give the file away: it stays.  What is left behind has no path and is told to keep the file. -/
def giveAway (a : FinishedArtifact) : Script Path := do
  letGo { a with path := ⟨""⟩ } true
  return a.release

end FinishedArtifact
end Embroidery
