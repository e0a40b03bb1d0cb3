/-
  Writing documents as TOML.

  The values of a table come first, each on a line of its own, then its tables, each under a header
  with a blank line before it.  A list of more than one element has a line for each.  A text is
  written with as few escapes as it allows (`TextForm`).
-/
import Embroidery.Document.Basic
import Embroidery.Number.Digits

namespace Embroidery.Toml

/-! ## Texts -/

/-- The ways to write a text: basic or literal, on one line or between three quotes. -/
inductive TextForm where
  | basic
  | literal
  | basicLines
  | literalLines
deriving DecidableEq

/-- A control character that no form may hold as it is; tab and line feed are none. -/
def isControl (c : Char) : Bool :=
  (c.toNat < 0x20 && c ≠ '\t' && c ≠ '\n') || c.toNat = 0x7F

/-- Three of a character in a row. -/
def hasTriple (q : Char) : List Char → Bool
  | a :: b :: c :: rest => (a = q && b = q && c = q) || hasTriple q (b :: c :: rest)
  | _ => false

/-- The first form that holds a text without an escape, and a basic one if none does. -/
def TextForm.of (cs : List Char) : TextForm :=
  let control := cs.any isControl
  let breaks := cs.contains '\n'
  if !control && !breaks && !cs.contains '"' && !cs.contains '\\' then .basic
  else if !control && !breaks && !cs.contains '\'' then .literal
  else if !control && !cs.contains '\\' && !hasTriple '"' cs then .basicLines
  else if !control && !hasTriple '\'' cs then .literalLines
  else if breaks then .basicLines
  else .basic

/-- A character by the number of its code, in four hexadecimal digits. -/
def escapeByCode (c : Char) : List Char :=
  let digit (n : Nat) : Char := (Nat.digitChar (n % 16)).toUpper
  ['\\', 'u', digit (c.toNat / 4096), digit (c.toNat / 256), digit (c.toNat / 16), digit c.toNat]

/-- A character inside a basic text; quotes and line feeds are left to the caller. -/
def escape (c : Char) : List Char :=
  if c = '\\' then ['\\', '\\']
  else if c = '\x08' then ['\\', 'b']
  else if c = '\t' then ['\\', 't']
  else if c = '\x0c' then ['\\', 'f']
  else if c = '\r' then ['\\', 'r']
  else if isControl c then escapeByCode c
  else [c]

/-- The inside of a basic text on one line. -/
def basicChars (cs : List Char) : List Char :=
  cs.flatMap fun c =>
    if c = '"' then ['\\', '"'] else if c = '\n' then ['\\', 'n'] else escape c

/-- The inside of a basic text over several lines; `run` quotes stand right before.  The third of a
    run is escaped. -/
def basicLinesChars (run : Nat) : List Char → List Char
  | [] => []
  | c :: rest =>
    if c = '"' then
      if run = 2 then '\\' :: '"' :: basicLinesChars 0 rest
      else '"' :: basicLinesChars (run + 1) rest
    else if c = '\n' then '\n' :: basicLinesChars 0 rest
    else escape c ++ basicLinesChars 0 rest

/-- A line break behind the opening quotes, where the text has one itself. -/
def openingBreak (cs : List Char) : List Char := if cs.contains '\n' then ['\n'] else []

def textChars (s : String) : List Char :=
  let cs := s.toList
  match TextForm.of cs with
  | .basic => '"' :: basicChars cs ++ ['"']
  | .literal => '\'' :: cs ++ ['\'']
  | .basicLines => ['"', '"', '"'] ++ openingBreak cs ++ basicLinesChars 0 cs ++ ['"', '"', '"']
  | .literalLines => ['\'', '\'', '\''] ++ openingBreak cs ++ cs ++ ['\'', '\'', '\'']

/-! ## Values -/

/-- Floats in TOML: all digits, `.0` after whole ones, of two equally near decimals the upper. -/
def numberStyle : NumberStyle where
  plainWithin := none
  pointZero := true
  plusExponent := false
  tieUp := true
  notANumber := "nan"
  infinity := "inf"

mutual

/-- A value on its line.  Tables have none. -/
def valueChars : Document → List Char
  | .bool b => (if b then "true" else "false").toList
  | .integer i => integerChars i
  | .float v => numberStyle.chars v
  | .string s => textChars s
  | .list [] => ['[', ']']
  | .list [item] => '[' :: valueChars item ++ [']']
  | .list items => '[' :: '\n' :: itemsChars items ++ [']']
  | .null => []
  | .table _ => []
  | .date => []
  | .unreadable => []

/-- The elements of a list, each on a line of its own. -/
def itemsChars : List Document → List Char
  | [] => []
  | item :: rest => "    ".toList ++ valueChars item ++ [',', '\n'] ++ itemsChars rest

end

/-- A line of a table: a key with a value that is no table and not null. -/
def lineChars : Option String × Document → List Char
  | (_, .table _) => []
  | (_, .null) => []
  | (key, d) => (key.getD "").toList ++ " = ".toList ++ valueChars d ++ ['\n']

/-- The header of a table. -/
def headerChars (path : List String) : List Char :=
  '\n' :: '[' :: ((path.map String.toList).intersperse ['.']).flatten ++ [']', '\n']

mutual

/-- A table under its header, if the document is one. -/
def tableChars (path : List String) : Document → List Char
  | .table members => headerChars path ++ members.flatMap lineChars ++ tablesChars path members
  | .null => []
  | .bool _ => []
  | .integer _ => []
  | .float _ => []
  | .string _ => []
  | .list _ => []
  | .date => []
  | .unreadable => []

/-- The tables among the members of the table at a path. -/
def tablesChars (path : List String) : List (Option String × Document) → List Char
  | [] => []
  | (key, d) :: rest => tableChars (path ++ [key.getD ""]) d ++ tablesChars path rest

end

/-- The text of a document that is a table. -/
def write (members : List (Option String × Document)) : String :=
  String.ofList (members.flatMap lineChars ++ tablesChars [] members)

end Embroidery.Toml
