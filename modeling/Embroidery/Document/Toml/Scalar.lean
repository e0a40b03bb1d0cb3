/-
  Values in TOML that are a single word: booleans, integers, floats, dates and times.

  A word is the longest run of letters, digits and the marks `+ - _ . :`.  A date may be followed by
  a blank and a time, which then belong to it.
-/
import Embroidery.Document.Basic
import Embroidery.Document.Json.Reader

namespace Embroidery.Toml

/-! ## Numbers -/

/-- Digits without the underscores between them; an underscore needs a digit on both sides. -/
def joinDigits (isDigit : Char → Bool) : List Char → Option (List Char)
  | [] => none
  | [c] => if isDigit c then some [c] else none
  | c :: '_' :: rest => if isDigit c then (joinDigits isDigit rest).map (c :: ·) else none
  | c :: rest => if isDigit c then (joinDigits isDigit rest).map (c :: ·) else none

/-- The digits of a decimal integer: no zero in front of others. -/
def wholeDigits (cs : List Char) : Option (List Char) :=
  match joinDigits Char.isDigit cs with
  | some ['0'] => some ['0']
  | some ('0' :: _) => none
  | digits => digits

/-- The integers that can be written: those of 64 bits. -/
def inRange (i : Int) : Option Int :=
  if Int64.minValue.toInt ≤ i ∧ i ≤ Int64.maxValue.toInt then some i else none

def isHexDigit (c : Char) : Bool := (Json.hexDigit? c).isSome

/-- A value in one of the bases 2, 8 and 16. -/
def inBase (base : Nat) (isDigit : Char → Bool) (cs : List Char) : Option Int :=
  (joinDigits isDigit cs).bind fun digits =>
    inRange (digits.foldl (fun v c => base * v + (Json.hexDigit? c).getD 0) 0 : Nat)

def integer? (word : List Char) : Option Int :=
  match word with
  | '0' :: 'x' :: rest => inBase 16 isHexDigit rest
  | '0' :: 'o' :: rest => inBase 8 (fun c => '0' ≤ c && c ≤ '7') rest
  | '0' :: 'b' :: rest => inBase 2 (fun c => c = '0' || c = '1') rest
  | _ =>
    let (negative, rest) := takeSign word
    (wholeDigits rest).bind fun digits =>
      let value : Int := digitsValue digits
      inRange (if negative then -value else value)

/-- The exponent part of a float. -/
def exponent? : List Char → Option Int
  | [] => some 0
  | _ :: rest =>
    let (negative, rest) := takeSign rest
    (joinDigits Char.isDigit rest).map (signedExponent negative)

def isExponentMark (c : Char) : Bool := c = 'e' || c = 'E'

/-- A float: a whole part, and behind it places, an exponent, or both.  What lies beyond all doubles
    is refused if it is positive. -/
def float? (word : List Char) : Option Binary64 :=
  let (negative, rest) := takeSign word
  if rest = "inf".toList then some (.infinite negative)
  else if rest = "nan".toList then some .nan
  else do
    let mantissa := rest.takeWhile (!isExponentMark ·)
    let tail := rest.dropWhile (!isExponentMark ·)
    let whole ← wholeDigits (mantissa.takeWhile (· ≠ '.'))
    let places ← match mantissa.dropWhile (· ≠ '.') with
      | [] => if tail.isEmpty then none else some []
      | _ :: places => joinDigits Char.isDigit places
    let exponent ← exponent? tail
    let value := Decimal.toBinary64
      ⟨negative, digitsFrom (digitsValue whole) places, exponent - places.length⟩
    if value = .infinite false then none else some value

/-! ## Dates and times -/

/-- Two digits with a value in a range, and what follows them. -/
def twoDigits (low high : Nat) : List Char → Option (Nat × List Char)
  | a :: b :: rest =>
    let value := digitsValue [a, b]
    if a.isDigit && b.isDigit && decide (low ≤ value) && decide (value ≤ high) then
      some (value, rest)
    else none
  | _ => none

/-- What follows a given character. -/
def dropMark (mark : Char) : List Char → Option (List Char)
  | c :: rest => if c = mark then some rest else none
  | [] => none

/-- The number of days of a month. -/
def monthDays (year month : Nat) : Nat :=
  if month = 2 then
    (if year % 4 = 0 ∧ (year % 100 ≠ 0 ∨ year % 400 = 0) then 29 else 28)
  else if month = 4 ∨ month = 6 ∨ month = 9 ∨ month = 11 then 30
  else 31

/-- A day of the calendar, and what follows it. -/
def dropDate (cs : List Char) : Option (List Char) := do
  let year := cs.take 4
  if year.length < 4 || !year.all Char.isDigit then none
  let rest ← dropMark '-' (cs.drop 4)
  let (month, rest) ← twoDigits 1 12 rest
  let rest ← dropMark '-' rest
  let (day, rest) ← twoDigits 1 31 rest
  if monthDays (digitsValue year) month < day then none
  return rest

/-- The places of the second, if there are any. -/
def dropPlaces : List Char → Option (List Char)
  | '.' :: rest => if (rest.takeWhile Char.isDigit).isEmpty then none
    else some (rest.dropWhile Char.isDigit)
  | rest => some rest

/-- A time of the day, and what follows it.  A minute may have a leap second. -/
def dropTime (cs : List Char) : Option (List Char) := do
  let (_, rest) ← twoDigits 0 23 cs
  let rest ← dropMark ':' rest
  let (_, rest) ← twoDigits 0 59 rest
  let rest ← dropMark ':' rest
  let (_, rest) ← twoDigits 0 60 rest
  dropPlaces rest

/-- The offset of a time zone is all that is left, or nothing is. -/
def isOffset : List Char → Bool
  | [] => true
  | ['Z'] => true
  | ['z'] => true
  | c :: rest =>
    if c = '+' || c = '-' then
      match twoDigits 0 23 rest with
      | some (_, ':' :: rest) =>
        match twoDigits 0 59 rest with
        | some (_, rest) => rest.isEmpty
        | none => false
      | _ => false
    else false

/-- A time of the day with or without an offset. -/
def isZonedTime (cs : List Char) : Bool :=
  match dropTime cs with
  | some rest => isOffset rest
  | none => false

/-- The word is a date on its own. -/
def isDate (word : List Char) : Bool := dropDate word = some []

/-- The word is a date, a time, or both. -/
def isDateTime (word : List Char) : Bool :=
  match dropDate word with
  | some [] => true
  | some (c :: rest) => (c = 'T' || c = 't') && isZonedTime rest
  | none => dropTime word = some []

/-! ## Words -/

def isWordChar (c : Char) : Bool :=
  c.isAlphanum || c = '+' || c = '-' || c = '_' || c = '.' || c = ':'

/-- The value of a word. -/
def wordValue (word : List Char) : Option Document :=
  if word = "true".toList then some (.bool true)
  else if word = "false".toList then some (.bool false)
  else if isDateTime word then some .date
  else match integer? word with
    | some i => some (.integer i)
    | none => (float? word).map Document.float

/-- Two digits and a colon: a time begins here. -/
def startsTime : List Char → Bool
  | a :: b :: ':' :: _ => a.isDigit && b.isDigit
  | _ => false

/-- A value that is a word, or a date and a time with a blank between them, and what follows it. -/
def takeScalar (cs : List Char) : Option (Document × List Char) :=
  let word := cs.takeWhile isWordChar
  let rest := cs.dropWhile isWordChar
  let time := rest.drop 1
  if isDate word && rest.head? == some ' ' && startsTime time then
    if isZonedTime (time.takeWhile isWordChar) then some (.date, time.dropWhile isWordChar)
    else none
  else (wordValue word).map fun d => (d, rest)

end Embroidery.Toml
