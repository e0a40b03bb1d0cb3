/-
  A tree of files in memory, and what scripts do to it.

  Everything in the tree has a location, the names from the root down.  A path is followed step by
  step, and what it passes through must be a folder that is there (`Workspace.follow`); paths that
  do not start at the root start at the workspace's home.
-/
import Embroidery.Files.Script
import Embroidery.Number.Decimal

namespace Embroidery

/-- A file with its content, or a folder. -/
inductive Entry where
  | file (content : ByteArray)
  | folder

def Entry.kind : Entry → FileKind
  | file content => .file content.size
  | folder => .folder

/-- The names from the root down. -/
abbrev Location := List String

structure Workspace where
  home : Location
  entries : List (Location × Entry)
  /-- How many fresh names have been given out. -/
  named : Nat

namespace Workspace

/-! ## The tree -/

/-- What is at a location.  The root is always there. -/
def entryAt (w : Workspace) (loc : Location) : Option Entry :=
  if loc = [] then some .folder else (w.entries.find? fun e => e.1 = loc).map Prod.snd

/-- Take away what is at a location. -/
def clear (w : Workspace) (loc : Location) : Workspace :=
  { w with entries := w.entries.filter fun e => e.1 ≠ loc }

/-- Put something at a location, in place of what was there. -/
def place (w : Workspace) (loc : Location) (entry : Entry) : Workspace :=
  { w with entries := (loc, entry) :: (w.clear loc).entries }

/-- The location itself, if a folder is there. -/
def enter (w : Workspace) (loc : Location) : Except FileFault Location :=
  match w.entryAt loc with
  | none => .error .notFound
  | some (.file _) => .error .notFolder
  | some .folder => .ok loc

/-! ## Following paths -/

/-- Take steps from a location.  The last one may lead to a place where nothing is. -/
def follow (w : Workspace) : List String → Location → Except FileFault Location
  | [], loc => .ok loc
  | step :: rest, loc =>
    (w.enter loc).bind fun loc =>
      w.follow rest
        (if step = "." then loc else if step = ".." then loc.dropLast else loc ++ [step])

/-- Where the steps of a path start. -/
def base (w : Workspace) (p : Path) : Location := if p.isAbsolute then [] else w.home

/-- The location of a path. -/
def locate (w : Workspace) (p : Path) : Except FileFault Location :=
  if p.text = "" then .error .notFound
  else w.follow (if p.endsInSlash then p.steps ++ ["."] else p.steps) (w.base p)

/-- What is at a path. -/
def find (w : Workspace) (p : Path) : Except FileFault Entry := do
  match w.entryAt (← w.locate p) with
  | some entry => .ok entry
  | none => .error .notFound

/-- The folder in which the last step of a path is taken, and the name that this step adds to it, if
    it is a name. -/
def locateNew (w : Workspace) (p : Path) : Except FileFault (Location × Option String) :=
  if p.text = "" then .error .notFound
  else do
    let folder ← w.enter (← w.follow p.steps.dropLast (w.base p))
    match p.steps.getLast? with
    | none => .ok (folder, none)
    | some name => .ok (folder, if name = "." ∨ name = ".." then none else some name)

/-! ## Operations -/

def read (w : Workspace) (p : Path) : Except FileFault ByteArray := do
  match ← w.find p with
  | .file content => .ok content
  | .folder => .error .isFolder

/-- Where a write to a path puts the content. -/
def writeTarget (w : Workspace) (p : Path) : Except FileFault Location := do
  match ← w.locateNew p with
  | (_, none) => .error .isFolder
  | (folder, some name) =>
    if p.endsInSlash then .error .isFolder
    else match w.entryAt (folder ++ [name]) with
      | some .folder => .error .isFolder
      | _ => .ok (folder ++ [name])

def write (w : Workspace) (p : Path) (content : ByteArray) : Except FileFault Unit × Workspace :=
  match w.writeTarget p with
  | .error fault => (.error fault, w)
  | .ok loc => (.ok (), w.place loc (.file content))

/-- Where a new folder goes. -/
def folderTarget (w : Workspace) (p : Path) : Except FileFault Location := do
  match ← w.locateNew p with
  | (_, none) => .error .alreadyExists
  | (folder, some name) =>
    match w.entryAt (folder ++ [name]) with
    | some _ => .error .alreadyExists
    | none => .ok (folder ++ [name])

def makeFolder (w : Workspace) (p : Path) : Except FileFault Unit × Workspace :=
  match w.folderTarget p with
  | .error fault => (.error fault, w)
  | .ok loc => (.ok (), w.place loc .folder)

/-- The name with a given number. -/
def freshName (start ending : String) (n : Nat) : String :=
  start ++ String.ofList (naturalChars n) ++ ending

/-- A number, from that of the names given out on, whose name is not in use in a folder.  There are
    more candidates than entries, so one of them is free. -/
def freshNumber (w : Workspace) (folder : Location) (start ending : String) : Nat :=
  let candidates := (List.range (w.entries.length + 1)).map (w.named + ·)
  (candidates.find? fun n => (w.entryAt (folder ++ [freshName start ending n])).isNone).getD w.named

/-- Where a path to a folder leads; the empty path leads home. -/
def locateFolder (w : Workspace) (p : Path) : Except FileFault Location := do
  w.enter (← if p.text = "" then .ok w.home else w.locate p)

def makeFresh (w : Workspace) (folder : Path) (start ending : String) :
    Except FileFault Path × Workspace :=
  match w.locateFolder folder with
  | .error fault => (.error fault, w)
  | .ok loc =>
    let n := w.freshNumber loc start ending
    let name := freshName start ending n
    (.ok (folder.inside name), { w.place (loc ++ [name]) (.file .empty) with named := n + 1 })

/-- Take away the file at a path. -/
def remove (w : Workspace) (p : Path) : Except FileFault Unit × Workspace :=
  match w.locate p with
  | .error fault => (.error fault, w)
  | .ok loc =>
    match w.entryAt loc with
    | none => (.error .notFound, w)
    | some .folder => (.error .isFolder, w)
    | some (.file _) => (.ok (), w.clear loc)

/-- Copy a file.  The target is emptied first: a file copied onto itself is lost. -/
def copy (w : Workspace) (source target : Path) : Except FileFault Nat × Workspace :=
  match w.read source with
  | .error fault => (.error fault, w)
  | .ok content =>
    match w.writeTarget target with
    | .error fault => (.error fault, w)
    | .ok loc =>
      let content := if (w.locate source).toOption = some loc then .empty else content
      (.ok content.size, w.place loc (.file content))

/-- Answer a request. -/
def answer (w : Workspace) : (r : FileRequest) → r.Answer × Workspace
  | .look p => ((w.find p).toOption.map Entry.kind, w)
  | .read p => (w.read p, w)
  | .write p content => w.write p content
  | .makeFolder p => w.makeFolder p
  | .makeFresh folder start ending => w.makeFresh folder start ending
  | .remove p => w.remove p
  | .copy source target => w.copy source target

end Workspace

/-- Run a script on a tree of files. -/
def Script.run {α : Type} : Script α → Workspace → α × Workspace
  | .done value, w => (value, w)
  | .ask request next, w => (next (w.answer request).1).run (w.answer request).2

end Embroidery
