/-
  Reading documents as TOML.

  A file is a sequence of lines: blank ones, comments, headers that say which table follows, and
  keys with their values.  Lists may run over several lines and hold comments; inline tables stay on
  one line and have no comma at their end.

  Lists and inline tables may be nested less than 80 deep, and keys have less than 80 parts.
-/
import Embroidery.Document.Toml.Scalar
import Embroidery.Document.Toml.Text
import Embroidery.Document.Toml.Tree

namespace Embroidery.Toml

/-! ## Blanks, comments and keys -/

def skipSpace (cs : List Char) : List Char := cs.dropWhile isSpace

/-- What follows the characters of a comment. -/
def skipComment (cs : List Char) : List Char :=
  match cs with
  | '#' :: rest => rest.dropWhile isTextChar
  | _ => cs

/-- The end of a line: blanks, a comment, and a line break or the end of the file. -/
def endLine (cs : List Char) : Option (List Char) :=
  match skipComment (skipSpace cs) with
  | [] => some []
  | rest => dropBreak rest

/-- What follows blanks, line breaks and comments.  Each round drops a line; `fuel` bounds them. -/
def skipLines : Nat → List Char → List Char
  | 0, cs => cs
  | fuel + 1, cs =>
    let cs := skipSpace cs
    match dropBreak (skipComment cs) with
    | some rest => skipLines fuel rest
    | none => cs

def isBareChar (c : Char) : Bool := c.isAlphanum || c = '-' || c = '_'

/-- One part of a key. -/
def takeKeyPart : List Char → Option (String × List Char)
  | '"' :: rest => (basicText rest).map fun (text, rest) => (String.ofList text, rest)
  | '\'' :: rest => (literalText rest).map fun (text, rest) => (String.ofList text, rest)
  | cs =>
    let name := cs.takeWhile isBareChar
    if name.isEmpty then none else some (String.ofList name, cs.dropWhile isBareChar)

/-- The least number of parts that a key must not have, and of levels that nesting must not have. -/
def depthLimit : Nat := 80

/-- The parts of a key, with blanks around each; at most as many as the fuel. -/
def takeKeyParts : Nat → List Char → Option (List String × List Char)
  | 0, _ => none
  | fuel + 1, cs => do
    let (part, rest) ← takeKeyPart (skipSpace cs)
    match skipSpace rest with
    | '.' :: rest =>
      let (parts, rest) ← takeKeyParts fuel rest
      return (part :: parts, rest)
    | rest => return ([part], rest)

/-- A key: the parts before the last, and the last. -/
def takeKey (cs : List Char) : Option (List String × String × List Char) := do
  let (parts, rest) ← takeKeyParts (depthLimit - 1) cs
  let last ← parts.getLast?
  return (parts.dropLast, last, rest)

/-! ## Values -/

mutual

/-- A value at the start of a text that may be nested `depth` more levels, and what follows it.
    The fuel is more than twice the number of characters: an element of a list takes one of it and
    at least one character, a bracket two of it and a character. -/
def takeValue : Nat → Nat → List Char → Option (Document × List Char)
  | 0, _, _ => none
  | fuel + 1, depth, cs =>
    match cs with
    | '"' :: _ => (takeText cs).map fun (text, rest) => (.string (String.ofList text), rest)
    | '\'' :: _ => (takeText cs).map fun (text, rest) => (.string (String.ofList text), rest)
    | '[' :: rest =>
      match depth with
      | 0 => none
      | depth + 1 =>
        match skipLines fuel rest with
        | ']' :: rest => some (.list [], rest)
        | rest => (takeItems fuel depth rest).map fun (items, rest) => (.list items, rest)
    | '\x7b' :: rest =>
      match depth with
      | 0 => none
      | depth + 1 =>
        match skipSpace rest with
        | '\x7d' :: rest => some (.table [], rest)
        | rest =>
          (takePairs fuel depth [] rest).map fun (entries, rest) =>
            ((Node.table .header entries).toDocument, rest)
    | _ => takeScalar cs

/-- The elements of a list up to its end; the last may have a comma behind it. -/
def takeItems : Nat → Nat → List Char → Option (List Document × List Char)
  | 0, _, _ => none
  | fuel + 1, depth, cs => do
    let (item, rest) ← takeValue fuel depth cs
    match skipLines fuel rest with
    | ']' :: rest => return ([item], rest)
    | ',' :: rest =>
      match skipLines fuel rest with
      | ']' :: rest => return ([item], rest)
      | rest =>
        let (items, rest) ← takeItems fuel depth rest
        return (item :: items, rest)
    | _ => none

/-- The pairs of an inline table up to its end, added to the entries so far. -/
def takePairs : Nat → Nat → Entries → List Char → Option (Entries × List Char)
  | 0, _, _, _ => none
  | fuel + 1, depth, entries, cs => do
    let (path, key, rest) ← takeKey cs
    let rest ← dropMark '=' rest
    let (d, rest) ← takeValue fuel depth (skipSpace rest)
    let entries ← addKey path key d .header entries
    match skipSpace rest with
    | '\x7d' :: rest => return (entries, rest)
    | ',' :: rest => takePairs fuel depth entries rest
    | _ => none

end

/-! ## Files -/

/-- What a file has built up: the root table, and the path of the table that is open. -/
structure Progress where
  root : Entries
  current : List String

/-- Open what a header names and go there. -/
def Progress.header (p : Progress) (listed : Bool) (path : List String) (key : String) :
    Option Progress :=
  (alter .path (if listed then openListed key else openTable key) path .header p.root).map
    fun root => ⟨root, path ++ [key]⟩

/-- Add a key to the table that is open. -/
def Progress.key (p : Progress) (path : List String) (key : String) (d : Document) :
    Option Progress :=
  (alter .path (addKey path key d) p.current .header p.root).map fun root => { p with root := root }

/-- A header or a key with its value, and what follows on the next line.  The fuel is more than the
    number of characters. -/
def takeStatement (fuel : Nat) (p : Progress) (cs : List Char) :
    Option (Progress × List Char) :=
  match cs with
  | '[' :: '[' :: rest => do
    let (path, key, rest) ← takeKey rest
    let rest ← dropMark ']' rest
    let rest ← dropMark ']' rest
    let rest ← endLine rest
    return (← p.header true path key, rest)
  | '[' :: rest => do
    let (path, key, rest) ← takeKey rest
    let rest ← dropMark ']' rest
    let rest ← endLine rest
    return (← p.header false path key, rest)
  | _ => do
    let (path, key, rest) ← takeKey cs
    let rest ← dropMark '=' rest
    let (d, rest) ← takeValue (2 * fuel) (depthLimit - 1) (skipSpace rest)
    let rest ← endLine rest
    return (← p.key path key d, rest)

/-- The rest of a file.  Each round takes at least one character; `fuel` bounds them. -/
def takeStatements : Nat → Progress → List Char → Option Progress
  | 0, _, _ => none
  | fuel + 1, p, cs =>
    match skipSpace cs with
    | [] => some p
    | cs =>
      match endLine cs with
      | some rest => takeStatements fuel p rest
      | none => (takeStatement (fuel + 1) p cs).bind fun (p, rest) => takeStatements fuel p rest

/-- The document that a whole text holds.  A byte order mark in front is skipped. -/
def read (text : String) : Option Document :=
  let cs := match text.toList with
    | '\uFEFF' :: rest => rest
    | cs => cs
  (takeStatements (cs.length + 1) ⟨[], []⟩ cs).map fun p => (Node.table .header p.root).toDocument

end Embroidery.Toml
