/-
  Texts in TOML, read from behind their opening quotes.

  A basic text is between double quotes and has escapes; a literal text is between single quotes and
  has none.  Between three quotes both may run over several lines: a line break right behind the
  opening is dropped, and up to two quotes may stand anywhere, also before the closing three.
-/
import Embroidery.Document.Json.Reader

namespace Embroidery.Toml

/-- A character that may stand for itself in a text or a comment: no control but the tab. -/
def isTextChar (c : Char) : Bool := c = '\t' || (0x20 ≤ c.toNat && c.toNat ≠ 0x7F)

def isSpace (c : Char) : Bool := c = ' ' || c = '\t'

/-- What follows a line break at the start of a text. -/
def dropBreak : List Char → Option (List Char)
  | '\n' :: rest => some rest
  | '\r' :: '\n' :: rest => some rest
  | _ => none

/-- The character that a one-letter escape stands for. -/
def unescape : Char → Option Char
  | '"' => some '"'
  | '\\' => some '\\'
  | 'b' => some '\x08'
  | 'f' => some '\x0c'
  | 'n' => some '\n'
  | 'r' => some '\r'
  | 't' => some '\t'
  | _ => none

/-- The character with a code in hexadecimal digits, if it is one. -/
def charOfHex (digits : List Char) : Option Char :=
  (Json.hexValue? digits).bind fun n => if n.isValidChar then some (Char.ofNat n) else none

/-- Put a character in front of a text that was read. -/
def push (c : Char) : List Char × List Char → List Char × List Char
  | (text, rest) => (c :: text, rest)

/-- A basic text on one line, and what follows it. -/
def basicText : List Char → Option (List Char × List Char)
  | [] => none
  | '"' :: rest => some ([], rest)
  | '\\' :: 'u' :: a :: b :: c :: d :: rest =>
    (charOfHex [a, b, c, d]).bind fun ch => (basicText rest).map (push ch)
  | '\\' :: 'U' :: a :: b :: c :: d :: e :: f :: g :: h :: rest =>
    (charOfHex [a, b, c, d, e, f, g, h]).bind fun ch => (basicText rest).map (push ch)
  | '\\' :: c :: rest => (unescape c).bind fun ch => (basicText rest).map (push ch)
  | c :: rest => if isTextChar c then (basicText rest).map (push c) else none

/-- A literal text on one line, and what follows it. -/
def literalText : List Char → Option (List Char × List Char)
  | [] => none
  | '\'' :: rest => some ([], rest)
  | c :: rest => if isTextChar c then (literalText rest).map (push c) else none

/-- Behind three closing quotes: up to two further ones belong to the text. -/
def afterClosing (quote : Char) : List Char → List Char × List Char
  | a :: rest =>
    if a = quote then
      match rest with
      | b :: rest' => if b = quote then ([quote, quote], rest') else ([quote], rest)
      | [] => ([quote], rest)
    else ([], a :: rest)
  | [] => ([], [])

/-- A basic text over several lines, and what follows it.  A backslash with only blanks behind it on
    its line drops the line break and all blanks and breaks after it; `skip` says that this is going
    on. -/
def basicLines (skip : Bool) : List Char → Option (List Char × List Char)
  | [] => none
  | '"' :: '"' :: '"' :: rest => some (afterClosing '"' rest)
  | '\\' :: 'u' :: a :: b :: c :: d :: rest =>
    (charOfHex [a, b, c, d]).bind fun ch => (basicLines false rest).map (push ch)
  | '\\' :: 'U' :: a :: b :: c :: d :: e :: f :: g :: h :: rest =>
    (charOfHex [a, b, c, d, e, f, g, h]).bind fun ch => (basicLines false rest).map (push ch)
  | '\\' :: c :: rest =>
    if (dropBreak ((c :: rest).dropWhile isSpace)).isSome then basicLines true (c :: rest)
    else (unescape c).bind fun ch => (basicLines false rest).map (push ch)
  | '\r' :: '\n' :: rest =>
    if skip then basicLines true rest else (basicLines false rest).map (push '\n')
  | '\n' :: rest =>
    if skip then basicLines true rest else (basicLines false rest).map (push '\n')
  | c :: rest =>
    if skip && isSpace c then basicLines true rest
    else if isTextChar c then (basicLines false rest).map (push c) else none

/-- A literal text over several lines, and what follows it. -/
def literalLines : List Char → Option (List Char × List Char)
  | [] => none
  | '\'' :: '\'' :: '\'' :: rest => some (afterClosing '\'' rest)
  | '\r' :: '\n' :: rest => (literalLines rest).map (push '\n')
  | '\n' :: rest => (literalLines rest).map (push '\n')
  | c :: rest => if isTextChar c then (literalLines rest).map (push c) else none

/-- A text without a line break right at its start. -/
def skipFirstBreak (cs : List Char) : List Char := (dropBreak cs).getD cs

/-- A text at the start of the rest of a file, of any of the four kinds. -/
def takeText : List Char → Option (List Char × List Char)
  | '"' :: '"' :: '"' :: rest => basicLines false (skipFirstBreak rest)
  | '"' :: rest => basicText rest
  | '\'' :: '\'' :: '\'' :: rest => literalLines (skipFirstBreak rest)
  | '\'' :: rest => literalText rest
  | _ => none

end Embroidery.Toml
