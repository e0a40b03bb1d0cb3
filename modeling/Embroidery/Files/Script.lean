/-
  Scripts: what is done with files, apart from how.

  A script asks for one file operation after the other and goes on by the answers.  It can be run on
  a tree of files in memory, which is how it is reasoned about, and performed on a disk.
-/
import Embroidery.Files.Path

namespace Embroidery

/-! ## Operations -/

/-- Why a file operation fails. -/
inductive FileFault where
  | notFound
  | alreadyExists
  | notFolder
  | isFolder
  /-- The bytes of a file are no text. -/
  | notText
  /-- Any other reason, in the words of the system. -/
  | other (reason : String)
deriving DecidableEq

def FileFault.message : FileFault → String
  | .notFound => "No such file or directory (os error 2)"
  | .alreadyExists => "File exists (os error 17)"
  | .notFolder => "Not a directory (os error 20)"
  | .isFolder => "Is a directory (os error 21)"
  | .notText => "stream did not contain valid UTF-8"
  | .other reason => reason

/-- What is found at a path. -/
inductive FileKind where
  | file (size : Nat)
  | folder
deriving DecidableEq

/-- A file operation. -/
inductive FileRequest where
  /-- What there is at a path, if anything. -/
  | look (path : Path)
  | read (path : Path)
  /-- Put content into a file, a new one or in place of what it held. -/
  | write (path : Path) (content : ByteArray)
  | makeFolder (path : Path)
  /-- Make an empty file with a name that is not in use. -/
  | makeFresh (folder : Path) (start ending : String)
  | remove (path : Path)
  /-- Copy the content of a file; the answer is its size. -/
  | copy (source target : Path)

/-- What a file operation answers. -/
abbrev FileRequest.Answer : FileRequest → Type
  | look _ => Option FileKind
  | read _ => Except FileFault ByteArray
  | write _ _ => Except FileFault Unit
  | makeFolder _ => Except FileFault Unit
  | makeFresh _ _ _ => Except FileFault Path
  | remove _ => Except FileFault Unit
  | copy _ _ => Except FileFault Nat

/-! ## Scripts -/

/-- A sequence of file operations that ends with a value. -/
inductive Script (α : Type) : Type where
  | done (value : α)
  | ask (request : FileRequest) (next : request.Answer → Script α)

namespace Script

/-- One script after the other. -/
def bind {α β : Type} : Script α → (α → Script β) → Script β
  | done value, f => f value
  | ask request next, f => ask request fun answer => (next answer).bind f

instance : Monad Script where
  pure := done
  bind := bind

/-- A script of one operation. -/
def request (r : FileRequest) : Script r.Answer := ask r done

def look (path : Path) : Script (Option FileKind) := request (.look path)
def read (path : Path) : Script (Except FileFault ByteArray) := request (.read path)
def write (path : Path) (content : ByteArray) : Script (Except FileFault Unit) :=
  request (.write path content)
def makeFolder (path : Path) : Script (Except FileFault Unit) := request (.makeFolder path)
def makeFresh (folder : Path) (start ending : String) : Script (Except FileFault Path) :=
  request (.makeFresh folder start ending)
def remove (path : Path) : Script (Except FileFault Unit) := request (.remove path)
def copy (source target : Path) : Script (Except FileFault Nat) := request (.copy source target)

/-- There is something at a path. -/
def isPresent (path : Path) : Script Bool := do return (← look path).isSome

/-- There is a file at a path. -/
def isFile (path : Path) : Script Bool := do
  match ← look path with
  | some (.file _) => return true
  | _ => return false

/-- There is a folder at a path. -/
def isFolder (path : Path) : Script Bool := do return (← look path) = some .folder

/-- The content of a file as text. -/
def readText (path : Path) : Script (Except FileFault String) := do
  match ← read path with
  | .error fault => return .error fault
  | .ok content =>
    match String.fromUTF8? content with
    | some text => return .ok text
    | none => return .error .notText

def writeText (path : Path) (text : String) : Script (Except FileFault Unit) :=
  write path text.toUTF8

/-- Make the folder with given components, the last one first, and all folders above it.  A folder
    that is there already is no failure. -/
def makeFoldersFrom : List String → Script (Except FileFault Unit)
  | [] => return .ok ()
  | c :: above => do
    let path := Path.ofComponents (c :: above).reverse
    match ← makeFolder path with
    | .ok () => return .ok ()
    | .error .notFound =>
      match ← makeFoldersFrom above with
      | .error fault => return .error fault
      | .ok () => orPresent path (← makeFolder path)
    | answer => orPresent path answer
where
  /-- A failure to make a folder that is there is none. -/
  orPresent (path : Path) : Except FileFault Unit → Script (Except FileFault Unit)
    | .ok () => return .ok ()
    | .error fault => do if ← isFolder path then return .ok () else return .error fault

/-- Make a folder and all folders above it. -/
def makeFolders (path : Path) : Script (Except FileFault Unit) :=
  makeFoldersFrom path.components.reverse

end Script
end Embroidery
