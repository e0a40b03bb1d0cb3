/-
  Decimal numbers and the words that spell them.

  A decimal is `± digits · 10^exponent`; `Decimal.toBinary64` is the double nearest to it.  A number
  word is a sign, digits with at most one point among or beside them, and an exponent, or one of the
  names of infinity and of what is not a number (`readNumber`).

  Very large and very small decimals are answered without writing out their power of ten: from
  10^310 on everything is infinite, and below 2^-1080 everything is zero.
-/
import Embroidery.Number.Binary64

namespace Embroidery

-- Powers of naturals are those of core, whatever other instances are at hand.
attribute [local instance (2000)] instPowNat

/-! ## Decimals -/

/-- The number `± digits · 10^exponent`. -/
structure Decimal where
  negative : Bool
  digits : Nat
  exponent : Int
deriving DecidableEq

namespace Decimal

/-- The nearest double.  `digits` is at least one where the first bound is used, and below
    `2^(log2 digits + 1)` where the second is, with `10^exponent ≤ 8^exponent`. -/
def toBinary64 (d : Decimal) : Binary64 :=
  if d.digits = 0 then .zero d.negative
  else if 310 < d.exponent then .infinite d.negative
  else if (d.digits.log2 : Int) + 1 + 3 * d.exponent < -1080 ∧ d.exponent < 0 then .zero d.negative
  else if 0 ≤ d.exponent then
    .ofQuotient d.negative (d.digits * 10 ^ d.exponent.toNat * unitsInOne) 1
  else .ofQuotient d.negative (d.digits * unitsInOne) (10 ^ (-d.exponent).toNat)

end Decimal

/-! ## Digits -/

/-- The value of a decimal digit. -/
def digitValue (c : Char) : Nat := c.toNat - '0'.toNat

/-- The number that a run of digits spells, continuing from `value`. -/
def digitsFrom (value : Nat) (cs : List Char) : Nat :=
  cs.foldl (fun v c => 10 * v + digitValue c) value

/-- The number that a run of digits spells. -/
def digitsValue (cs : List Char) : Nat := digitsFrom 0 cs

/-- The decimal digits of a natural number. -/
def naturalChars (n : Nat) : List Char := Nat.toDigits 10 n

/-- The decimal text of an integer. -/
def integerChars : Int → List Char
  | .ofNat n => naturalChars n
  | .negSucc n => '-' :: naturalChars (n + 1)

/-! ## Number words -/

/-- A sign in front, and what follows it. -/
def takeSign : List Char → Bool × List Char
  | '-' :: rest => (true, rest)
  | '+' :: rest => (false, rest)
  | rest => (false, rest)

/-- An integer with an optional sign and at least one digit, and nothing else. -/
def readInteger (cs : List Char) : Option Int :=
  let (negative, digits) := takeSign cs
  if digits.isEmpty || !digits.all Char.isDigit then none
  else some (if negative then -(digitsValue digits : Int) else digitsValue digits)

/-- An exponent below this is taken with a further digit. -/
def exponentLimit : Nat := 65536

/-- The size of an exponent.  Its digits are taken until the limit is reached, and further ones do
    not count: a number would have to be written with tens of thousands of digits for them to
    matter. -/
def exponentSize (digits : List Char) : Nat :=
  digits.foldl (fun v c => if v < exponentLimit then 10 * v + digitValue c else v) 0

/-- An exponent with its sign. -/
def signedExponent (negative : Bool) (digits : List Char) : Int :=
  if negative then -(exponentSize digits : Int) else exponentSize digits

/-- The exponent part at the end of a number word: nothing, or `e`, a sign and digits. -/
def readExponent : List Char → Option Int
  | [] => some 0
  | c :: rest =>
    let (negative, digits) := takeSign rest
    if (c = 'e' || c = 'E') && !digits.isEmpty && digits.all Char.isDigit then
      some (signedExponent negative digits)
    else none

/-- Digits with at most one point, at least one of them, and an exponent part. -/
def readUnsigned (negative : Bool) (cs : List Char) : Option Decimal :=
  let whole := cs.takeWhile Char.isDigit
  let afterWhole := cs.dropWhile Char.isDigit
  let afterPoint := match afterWhole with
    | '.' :: rest => rest
    | _ => []
  let places := afterPoint.takeWhile Char.isDigit
  let tail := match afterWhole with
    | '.' :: rest => rest.dropWhile Char.isDigit
    | rest => rest
  if whole.isEmpty && places.isEmpty then none
  else
    (readExponent tail).map fun exponent =>
      { negative, digits := digitsFrom (digitsValue whole) places
        exponent := exponent - places.length }

/-- A number word.  Names are read in either case. -/
def readNumber (cs : List Char) : Option Binary64 :=
  let (negative, rest) := takeSign cs
  let name := rest.map Char.toLower
  if name = "inf".toList || name = "infinity".toList then some (.infinite negative)
  else if name = "nan".toList then some .nan
  else (readUnsigned negative rest).map Decimal.toBinary64

example : readNumber "-2.5e1".toList = some (-25) := by decide +kernel
example : readNumber ".5".toList = some (1 / 2) ∧ readNumber ".".toList = none := by decide +kernel

end Embroidery
