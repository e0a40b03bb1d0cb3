/-
  Paths, as they are written.

  A path keeps its text: messages show it, and a file is looked up by it.  Two texts are the same
  path when their components agree (`Path.same`).  Repeated slashes, a slash at the end and dots
  inside do not count as components; a dot at the start and two dots anywhere do.
-/
namespace Embroidery

structure Path where
  text : String
deriving DecidableEq

namespace Path

/-! ## Components -/

/-- The pieces between the slashes of a text. -/
def cutSlashes : List Char → List (List Char)
  | [] => [[]]
  | c :: rest =>
    if c = '/' then [] :: cutSlashes rest
    else match cutSlashes rest with
      | [] => [[c]]
      | piece :: pieces => (c :: piece) :: pieces

/-- The pieces of a path, empty ones included. -/
def pieces (p : Path) : List String := (cutSlashes p.text.toList).map String.ofList

/-- The path starts at the root. -/
def isAbsolute (p : Path) : Bool := p.text.toList.head? = some '/'

/-- The steps of a path, from where it starts. -/
def steps (p : Path) : List String := p.pieces.filter (· ≠ "")

/-- The path ends in a slash, which asks for a folder. -/
def endsInSlash (p : Path) : Bool := p.pieces.getLast? = some ""

/-- The component that stands for the root; no piece of a text has this text. -/
def root : String := "/"

/-- What is left of a list of pieces when those without a meaning of their own go. -/
def meaningful (pieces : List String) : List String := pieces.filter fun s => s ≠ "" && s ≠ "."

/-- The components of a path, the root being one. -/
def components (p : Path) : List String :=
  if p.isAbsolute then root :: meaningful p.pieces
  else match p.pieces with
    | "." :: rest => "." :: meaningful rest
    | pieces => meaningful pieces

/-- A path with given components. -/
def ofComponents : List String → Path
  | [] => ⟨""⟩
  | c :: rest =>
    if c = root then ⟨root ++ String.intercalate "/" rest⟩
    else ⟨String.intercalate "/" (c :: rest)⟩

/-- Both texts name the same path. -/
def same (p q : Path) : Bool := p.components = q.components

/-- The path without its last component; the root and the empty path have no parent. -/
def parent (p : Path) : Option Path :=
  match p.components with
  | [] => none
  | c :: rest => if c = root ∧ rest = [] then none else some (ofComponents (c :: rest).dropLast)

/-- A path inside a folder. -/
def inside (folder : Path) (name : String) : Path :=
  if folder.text = "" then ⟨name⟩ else ⟨folder.text ++ "/" ++ name⟩

/-! ## Names -/

/-- The last component, if it is a name. -/
def fileName (p : Path) : Option String :=
  match p.components.getLast? with
  | some name => if name = root ∨ name = "." ∨ name = ".." then none else some name
  | none => none

/-- A name cut at its last dot.  A dot in front of everything else is no such dot. -/
def cutAtLastDot (name : List Char) : Option (List Char × List Char) :=
  match (name.reverse.dropWhile (· ≠ '.')) with
  | [] => none
  | _ :: before =>
    if before.isEmpty then none
    else some (before.reverse, (name.reverse.takeWhile (· ≠ '.')).reverse)

/-- The file name up to its last dot. -/
def stem (p : Path) : Option String :=
  p.fileName.map fun name =>
    match cutAtLastDot name.toList with
    | some (before, _) => String.ofList before
    | none => name

/-- The file name from its last dot on. -/
def extension (p : Path) : Option String :=
  p.fileName.bind fun name => (cutAtLastDot name.toList).map fun (_, after) => String.ofList after

example : (Path.mk "a//b/./c.json/").components = ["a", "b", "c.json"] := by decide +kernel
example : (Path.mk "./a/b").parent = some ⟨"./a"⟩ := by decide +kernel
example : (Path.mk ".json").extension = none ∧ (Path.mk "a.b.json").stem = some "a.b" := by
  decide +kernel

end Path
end Embroidery
