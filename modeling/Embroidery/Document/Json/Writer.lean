/-
  Writing documents as JSON.

  Every member and element has a line of its own, indented by two spaces; empty lists and tables
  stay on one line.  There is no line feed at the end.
-/
import Embroidery.Document.Basic
import Embroidery.Number.Digits

namespace Embroidery.Json

/-- Floats in JSON: written out from 10^-5 up to 10^16, with a sign on positive exponents; of two
    equally near decimals the even one.  What is no finite number is null. -/
def numberStyle : NumberStyle where
  plainWithin := some (-5, 16)
  pointZero := true
  plusExponent := true
  tieUp := false
  notANumber := "null"
  infinity := "null"

/-- A character inside a text. -/
def escape (c : Char) : List Char :=
  if c = '"' then ['\\', '"']
  else if c = '\\' then ['\\', '\\']
  else if c = '\x08' then ['\\', 'b']
  else if c = '\x0c' then ['\\', 'f']
  else if c = '\n' then ['\\', 'n']
  else if c = '\r' then ['\\', 'r']
  else if c = '\t' then ['\\', 't']
  else if c.toNat < 0x20 then
    ['\\', 'u', '0', '0', Nat.digitChar (c.toNat / 16), Nat.digitChar (c.toNat % 16)]
  else [c]

def textChars (s : String) : List Char := '"' :: s.toList.flatMap escape ++ ['"']

def indent (depth : Nat) : List Char := '\n' :: List.replicate (2 * depth) ' '

mutual

/-- A value inside `depth` others.  What the format cannot express is null. -/
def valueChars (depth : Nat) : Document → List Char
  | .bool b => (if b then "true" else "false").toList
  | .integer i => integerChars i
  | .float v => if v.isFinite then numberStyle.chars v else "null".toList
  | .string s => textChars s
  | .list [] => ['[', ']']
  | .list (item :: rest) =>
    '[' :: indent (depth + 1) ++ valueChars (depth + 1) item ++ itemsChars (depth + 1) rest
      ++ indent depth ++ [']']
  | .table [] => ['\x7b', '\x7d']
  | .table ((key, value) :: rest) =>
    '\x7b' :: indent (depth + 1) ++ textChars (key.getD "") ++ [':', ' ']
      ++ valueChars (depth + 1) value ++ membersChars (depth + 1) rest ++ indent depth ++ ['\x7d']
  | .null => "null".toList
  | .date => "null".toList
  | .unreadable => "null".toList

/-- The further elements of a list. -/
def itemsChars (depth : Nat) : List Document → List Char
  | [] => []
  | item :: rest => ',' :: indent depth ++ valueChars depth item ++ itemsChars depth rest

/-- The further members of a table. -/
def membersChars (depth : Nat) : List (Option String × Document) → List Char
  | [] => []
  | (key, value) :: rest =>
    ',' :: indent depth ++ textChars (key.getD "") ++ [':', ' '] ++ valueChars depth value
      ++ membersChars depth rest

end

/-- The text of a document. -/
def write (d : Document) : String := String.ofList (valueChars 0 d)

end Embroidery.Json
