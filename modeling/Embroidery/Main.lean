/-
  The program on a real disk.

  Here, and only here, scripts are performed: each file operation is handed to the system, and what
  the system answers is put into the words of `FileFault`.
-/
import Embroidery.Command.Run

namespace Embroidery

/-! ## Performing scripts -/

/-- A fault of the system.  Codes are the system's own. -/
def FileFault.ofSystem : IO.Error → FileFault
  | .noFileOrDirectory .. => .notFound
  | .alreadyExists .. => .alreadyExists
  | .inappropriateType _ code details =>
    if code = 20 then .notFolder else if code = 21 then .isFolder else .other details
  | .permissionDenied _ _ details => .other details
  | e => .other (toString e)

/-- The outcome of an action, a fault as a value. -/
def caught {α : Type} (action : IO α) : IO (Except FileFault α) := do
  match ← action.toBaseIO with
  | .ok a => return .ok a
  | .error e => return .error (.ofSystem e)

/-- The path as the system takes it; the empty path is no file's. -/
def onSystem {α : Type} (path : Path) (action : String → IO α) : IO (Except FileFault α) :=
  if path.text = "" then return .error .notFound else caught (action path.text)

def lookOnDisk (path : Path) : IO (Option FileKind) := do
  let found ← onSystem path fun text => do
    let place := (← IO.currentDir) / text
    if ← place.isDir then return FileKind.folder
    else return FileKind.file (← place.metadata).byteSize.toNat
  return found.toOption

/-- Make an empty file with a random name, a new one each time the name is in use. -/
def makeFreshOnDisk (folder : Path) (start ending : String) : Nat → IO (Except FileFault Path)
  | 0 => return .error .alreadyExists
  | tries + 1 => do
    let path := folder.inside (start ++ countText (← IO.rand 0 (10 ^ 9)) ++ ending)
    match ← caught (IO.FS.Handle.mk path.text .writeNew) with
    | .ok _ => return .ok path
    | .error .alreadyExists => makeFreshOnDisk folder start ending tries
    | .error fault => return .error fault

/-- The source is opened first, and it is read when the target is open. -/
def copyOnDisk (source target : String) : IO Nat := do
  let input ← IO.FS.Handle.mk source .read
  let output ← IO.FS.Handle.mk target .write
  let content ← input.readBinToEnd
  output.write content
  return content.size

def answerOnDisk : (r : FileRequest) → IO r.Answer
  | .look path => lookOnDisk path
  | .read path => onSystem path fun text => IO.FS.readBinFile text
  | .write path content => onSystem path fun text => IO.FS.writeBinFile text content
  | .makeFolder path => onSystem path fun text => IO.FS.createDir text
  | .makeFresh folder start ending => makeFreshOnDisk folder start ending 100
  | .remove path => onSystem path fun text => IO.FS.removeFile text
  | .copy source target => onSystem target fun text => copyOnDisk source.text text

/-- Perform a script. -/
def Script.perform {α : Type} : Script α → IO α
  | .done value => return value
  | .ask request next => do (next (← answerOnDisk request)).perform

/-! ## Surroundings -/

/-- The folders that the environment names, or the usual ones. -/
def surroundings : IO Surroundings := do
  let home ← IO.getEnv "HOME"
  let settings ← IO.getEnv "XDG_CONFIG_HOME"
  let temporary ← IO.getEnv "TMPDIR"
  let own := (settings.map Path.mk).filter Path.isAbsolute
  return ⟨own.or (home.map fun folder => (Path.mk folder).inside ".config"),
    ⟨temporary.getD "/tmp"⟩⟩

end Embroidery

def main (args : List String) : IO UInt32 := do
  let outcome ← (Embroidery.runProgram (← Embroidery.surroundings) args).perform
  IO.print outcome.out
  IO.eprint outcome.err
  return UInt32.ofNat outcome.status
