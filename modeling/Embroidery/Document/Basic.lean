/-
  Documents: what a settings file or a pattern file says, before it is given a meaning.

  Both file formats are read into the same tree.  A value that is well formed but denotes nothing (a
  number beyond all doubles, a text with half a surrogate pair) is kept as `unreadable`: it does no
  harm where nobody asks for it.

  A record is written as a table of its fields, or as the list of their values in a fixed order
  (`Document.record`).  Fields that nobody knows are passed over in a table.
-/
import Embroidery.Number.Binary64

namespace Embroidery

inductive Document where
  | null
  | bool (value : Bool)
  | integer (value : Int)
  | float (value : Binary64)
  | string (value : String)
  | list (items : List Document)
  /-- Members in the order of the file; a key may be unreadable. -/
  | table (members : List (Option String × Document))
  /-- A date, a time, or both. -/
  | date
  | unreadable

namespace Document

/-! ## Single values -/

def asBool : Document → Option Bool
  | .bool value => some value
  | _ => none

def asString : Document → Option String
  | .string value => some value
  | _ => none

/-- A whole number below a limit. -/
def asNatBelow (limit : Nat) : Document → Option Nat
  | .integer value => if 0 ≤ value ∧ value < limit then some value.toNat else none
  | _ => none

/-- A machine word. -/
def asWord (d : Document) : Option UInt32 := (d.asNatBelow UInt32.size).map UInt32.ofNat

/-- A double, which may be written as an integer. -/
def asFloat : Document → Option Binary64
  | .integer value => some (Binary64.ofInt value)
  | .float value => some value
  | _ => none

/-- A value that may be null. -/
def optional {α : Type} (read : Document → Option α) : Document → Option (Option α)
  | .null => some none
  | d => (read d).map some

/-- A list of values of one kind. -/
def asList {α : Type} (read : Document → Option α) : Document → Option (List α)
  | .list items => items.mapM read
  | _ => none

/-! ## Records -/

/-- Put a value into the field with a given name: `none` if it has one already. -/
def setField (name : String) (value : Document) :
    List (String × Option Document) → Option (List (String × Option Document))
  | [] => some []
  | (n, old) :: rest =>
    if n = name then
      match old with
      | none => some ((n, some value) :: rest)
      | some _ => none
    else (setField name value rest).map ((n, old) :: ·)

/-- Put members into fields: every key must be readable, and no field may be given twice. -/
def setFields (fields : List (String × Option Document)) :
    List (Option String × Document) → Option (List (String × Option Document))
  | [] => some fields
  | (none, _) :: _ => none
  | (some key, value) :: rest => (setField key value fields).bind fun fs => setFields fs rest

/-- The values of the named fields, each present or absent.  `surplus` says whether a list may be
    longer than the record. -/
def record (surplus : Bool) (names : List String) : Document → Option (List (Option Document))
  | .table members =>
    (setFields (names.map fun n => (n, none)) members).map (·.map Prod.snd)
  | .list items =>
    if names.length < items.length && !surplus then none
    else some ((items.map some ++ List.replicate names.length none).take names.length)
  | .date => some (names.map fun _ => none)
  | _ => none

/-- A field that must be there. -/
def required {α : Type} (read : Document → Option α) (field : Option Document) : Option α :=
  field.bind read

/-- A field with a value to fall back on. -/
def orDefault {α : Type} (fallback : α) (read : Document → Option α) :
    Option Document → Option α
  | none => some fallback
  | some d => read d

end Document
end Embroidery
