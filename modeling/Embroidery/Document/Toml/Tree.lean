/-
  The tree of tables that a TOML file builds up.

  A table is opened by a header, or comes into being on the way to another one, by a header's path
  or by a dotted key.  What may be added to it depends on that:

    * a header opens a table once; it may still open one that only lay on the path of another
      header;
    * a dotted key may add to tables that dotted keys made, not to those of headers;
    * a key is set once, and values, inline tables among them, are closed.

  A header in double brackets adds a table to a list; paths through the list lead into its last
  table.
-/
import Embroidery.Document.Basic

namespace Embroidery.Toml

/-- How a table came into being. -/
inductive Origin where
  | header
  | path
  | dotted
deriving DecidableEq

/-- A node of the tree. -/
inductive Node where
  | value (d : Document)
  | table (origin : Origin) (entries : List (String × Node))
  /-- The tables of a list, the last one first; each was opened by a header. -/
  | tables (newest : List (String × Node)) (older : List (List (String × Node)))

/-- The entries of a table. -/
abbrev Entries := List (String × Node)

/-- The node under a key. -/
def nodeAt (entries : Entries) (key : String) : Option Node :=
  (entries.find? fun e => e.1 = key).map Prod.snd

/-- Set a key, in its old place if it is there. -/
def setNode (entries : Entries) (key : String) (node : Node) : Entries :=
  if entries.any fun e => e.1 = key then
    entries.map fun e => if e.1 = key then (key, node) else e
  else entries ++ [(key, node)]

/-- Change the table at the end of a path.  Missing tables are made on the way, as `made` says; a
    dotted key does not pass through a table that a header opened. -/
def alter (made : Origin) (change : Origin → Entries → Option Entries) :
    List String → Origin → Entries → Option Entries
  | [], origin, entries => change origin entries
  | key :: path, _, entries =>
    match nodeAt entries key with
    | none =>
      (alter made change path made []).map fun inner => setNode entries key (.table made inner)
    | some (.value _) => none
    | some (.table origin inner) =>
      if made = .dotted ∧ origin = .header then none
      else (alter made change path origin inner).map fun inner =>
        setNode entries key (.table origin inner)
    | some (.tables newest older) =>
      (alter made change path .header newest).map fun newest =>
        setNode entries key (.tables newest older)

/-- Set a new key in a table.  Dotted keys end in tables that dotted keys made, others do not. -/
def setValue (isDotted : Bool) (key : String) (d : Document) (origin : Origin) (entries : Entries) :
    Option Entries :=
  if decide (origin = .dotted) != isDotted then none
  else match nodeAt entries key with
    | some _ => none
    | none => some (setNode entries key (.value d))

/-- A key with its dots, against the table where it is written. -/
def addKey (path : List String) (key : String) (d : Document) (origin : Origin)
    (entries : Entries) : Option Entries :=
  alter .dotted (setValue (!path.isEmpty) key d) path origin entries

/-- Open the table under a key. -/
def openTable (key : String) (_ : Origin) (entries : Entries) : Option Entries :=
  match nodeAt entries key with
  | none => some (setNode entries key (.table .header []))
  | some (.table .path inner) => some (setNode entries key (.table .header inner))
  | some _ => none

/-- Add a table to the list under a key. -/
def openListed (key : String) (_ : Origin) (entries : Entries) : Option Entries :=
  match nodeAt entries key with
  | none => some (setNode entries key (.tables [] []))
  | some (.tables newest older) => some (setNode entries key (.tables [] (newest :: older)))
  | some _ => none

mutual

/-- A node as a document. -/
def Node.toDocument : Node → Document
  | .value d => d
  | .table _ entries => .table (entriesToMembers entries)
  | .tables newest older =>
    .list ((listedToDocuments older).reverse ++ [.table (entriesToMembers newest)])

/-- Entries as members of a table. -/
def entriesToMembers : List (String × Node) → List (Option String × Document)
  | [] => []
  | (key, node) :: rest => (some key, node.toDocument) :: entriesToMembers rest

/-- Listed tables as documents. -/
def listedToDocuments : List (List (String × Node)) → List Document
  | [] => []
  | entries :: rest => .table (entriesToMembers entries) :: listedToDocuments rest

end

end Embroidery.Toml
