/-
  Reading documents as JSON.

  Reading is strict: no comments, no trailing commas, nothing behind the value.  A text is read as
  16-bit units where it is escaped, and halves of a surrogate pair must stand together; a text where
  they do not is unreadable.

  A number without point and exponent that fits 64 bits is an integer.  Any other is a float, and is
  not always the nearest one (`floatOf`): its digits are taken into 64 bits while they fit, and the
  result is scaled once by a power of ten.
-/
import Embroidery.Document.Basic
import Embroidery.Number.Decimal

namespace Embroidery.Json

-- Powers of naturals are those of core, whatever other instances are at hand.
attribute [local instance (2000)] instPowNat

/-! ## Texts -/

/-- The value of a hexadecimal digit. -/
def hexDigit? (c : Char) : Option Nat :=
  if c.isDigit then some (digitValue c)
  else if 'a' ≤ c && c ≤ 'f' then some (c.toNat - 'a'.toNat + 10)
  else if 'A' ≤ c && c ≤ 'F' then some (c.toNat - 'A'.toNat + 10)
  else none

/-- The value of a run of hexadecimal digits. -/
def hexValue? (cs : List Char) : Option Nat :=
  cs.foldlM (fun v c => (hexDigit? c).map (16 * v + ·)) 0

/-- The character that a one-letter escape stands for. -/
def unescape : Char → Option Char
  | '"' => some '"'
  | '\\' => some '\\'
  | '/' => some '/'
  | 'b' => some '\x08'
  | 'f' => some '\x0c'
  | 'n' => some '\n'
  | 'r' => some '\r'
  | 't' => some '\t'
  | _ => none

/-- The codes of a text up to its closing quote, and what follows.  An escape by number gives a code
    of 16 bits. -/
def takeCodes : List Char → Option (List Nat × List Char)
  | [] => none
  | '"' :: rest => some ([], rest)
  | '\\' :: 'u' :: a :: b :: c :: d :: rest => do
    let code ← hexValue? [a, b, c, d]
    let (codes, rest) ← takeCodes rest
    return (code :: codes, rest)
  | '\\' :: c :: rest => do
    let c ← unescape c
    let (codes, rest) ← takeCodes rest
    return (c.toNat :: codes, rest)
  | c :: rest => do
    if c.toNat < 0x20 then none
    let (codes, rest) ← takeCodes rest
    return (c.toNat :: codes, rest)

def isHighSurrogate (n : Nat) : Bool := 0xD800 ≤ n && n < 0xDC00

def isLowSurrogate (n : Nat) : Bool := 0xDC00 ≤ n && n < 0xE000

/-- Characters from codes, surrogates in pairs. -/
def ofCodes : List Nat → Option (List Char)
  | [] => some []
  | n :: rest =>
    if isHighSurrogate n then
      match rest with
      | m :: rest =>
        if isLowSurrogate m then
          (ofCodes rest).map (Char.ofNat (0x10000 + (n - 0xD800) * 0x400 + (m - 0xDC00)) :: ·)
        else none
      | [] => none
    else if isLowSurrogate n then none
    else (ofCodes rest).map (Char.ofNat n :: ·)

/-- A text behind its opening quote: `none` inside if its codes do not pair. -/
def takeText (cs : List Char) : Option (Option String × List Char) :=
  (takeCodes cs).map fun (codes, rest) => ((ofCodes codes).map String.ofList, rest)

/-! ## Numbers -/

/-- The parts of a number as it is written. -/
structure Numeral where
  negative : Bool
  whole : List Char
  /-- The digits behind the point; none means no point. -/
  places : List Char
  /-- The exponent's sign and digits. -/
  exponent : Option (Bool × List Char)

/-- Digits behind a point, at least one; none if there is no point. -/
def takePlaces : List Char → Option (List Char × List Char)
  | '.' :: rest =>
    let places := rest.takeWhile Char.isDigit
    if places.isEmpty then none else some (places, rest.dropWhile Char.isDigit)
  | rest => some ([], rest)

/-- An exponent, with at least one digit, if there is one. -/
def takeExponent : List Char → Option (Option (Bool × List Char) × List Char)
  | c :: rest =>
    if c = 'e' || c = 'E' then
      let (negative, rest) := takeSign rest
      let digits := rest.takeWhile Char.isDigit
      if digits.isEmpty then none else some (some (negative, digits), rest.dropWhile Char.isDigit)
    else some (none, c :: rest)
  | [] => some (none, [])

/-- A number at the start of a text.  More than one whole digit must not start with zero. -/
def takeNumeral (cs : List Char) : Option (Numeral × List Char) := do
  let (negative, cs) := match cs with
    | '-' :: rest => (true, rest)
    | rest => (false, rest)
  let whole := cs.takeWhile Char.isDigit
  if whole.isEmpty || (whole.head? == some '0' && 1 < whole.length) then none
  let (places, cs) ← takePlaces (cs.dropWhile Char.isDigit)
  let (exponent, cs) ← takeExponent cs
  return (⟨negative, whole, places, exponent⟩, cs)

/-- The largest value that 64 bits hold. -/
def maxWord64 : Nat := UInt64.size - 1

/-- Take digits into a value while it fits 64 bits; the digits that are left. -/
def absorb (value : Nat) : List Char → Nat × List Char
  | [] => (value, [])
  | c :: rest =>
    if 10 * value + digitValue c ≤ maxWord64 then absorb (10 * value + digitValue c) rest
    else (value, c :: rest)

/-- The correctly rounded power of ten. -/
def powerOfTen (n : Nat) : Binary64 := Binary64.ofNat (10 ^ n)

/-- `f · 10^exponent` by one multiplication or division, or by several divisions where the exponent
    is below −308.  Nothing if the result would be infinite. -/
def scale (f : Binary64) (exponent : Int) : Option Binary64 :=
  if 0 ≤ exponent then
    if 308 < exponent then (if f.eq 0 then some f else none)
    else
      let scaled := f * powerOfTen exponent.toNat
      if scaled.isFinite then some scaled else none
  else if _h : exponent < -308 then
    if f.eq 0 then some f else scale (f / powerOfTen 308) (exponent + 308)
  else some (f / powerOfTen (-exponent).toNat)
termination_by (-exponent).toNat
decreasing_by omega

/-- An exponent must be below 2^31; a larger one leaves zero or nothing. -/
def maxExponent : Nat := 2147483647

/-- The float of a number, if it is not out of range. -/
def floatOf (n : Numeral) : Option Binary64 :=
  let (value, dropped) := absorb 0 n.whole
  let (value, unread) := absorb value n.places
  let shift : Int := (dropped.length : Int) - ((n.places.length : Int) - (unread.length : Int))
  let magnitude := match n.exponent with
    | none => scale (Binary64.ofNat value) shift
    | some (negative, digits) =>
      let e := digitsValue digits
      if maxExponent < e then
        if value ≠ 0 ∧ !negative then none else some 0
      else scale (Binary64.ofNat value) (if negative then shift - e else shift + e)
  magnitude.map fun v => if n.negative then -v else v

/-- What a number denotes. -/
def Numeral.toDocument (n : Numeral) : Document :=
  let value := digitsValue n.whole
  let float := match floatOf n with
    | some v => Document.float v
    | none => .unreadable
  if n.places.isEmpty && n.exponent.isNone then
    if !n.negative && decide (value ≤ maxWord64) then .integer value
    else if n.negative && value ≠ 0 && decide (value ≤ UInt64.size / 2) then .integer (-value)
    else float
  else float

/-! ## Values -/

def isSpace (c : Char) : Bool := c = ' ' || c = '\n' || c = '\t' || c = '\r'

def skipSpace (cs : List Char) : List Char := cs.dropWhile isSpace

/-- What follows a given word at the start of a text. -/
def dropWord : List Char → List Char → Option (List Char)
  | [], cs => some cs
  | w :: word, c :: cs => if w = c then dropWord word cs else none
  | _ :: _, [] => none

/-- The values that are words. -/
def takeWordValue (cs : List Char) : Option (Document × List Char) :=
  match dropWord "null".toList cs, dropWord "true".toList cs, dropWord "false".toList cs with
  | some rest, _, _ => some (.null, rest)
  | _, some rest, _ => some (.bool true, rest)
  | _, _, some rest => some (.bool false, rest)
  | _, _, _ => none

mutual

/-- A value at the start of a text, and what follows it.  Each call reads at least one character, so
    the length of the text bounds their number. -/
def takeValue : Nat → List Char → Option (Document × List Char)
  | 0, _ => none
  | fuel + 1, cs =>
    match skipSpace cs with
    | '"' :: rest =>
      (takeText rest).map fun (text, rest) =>
        ((text.map Document.string).getD .unreadable, rest)
    | '[' :: rest =>
      match skipSpace rest with
      | ']' :: rest => some (.list [], rest)
      | rest => (takeItems fuel rest).map fun (items, rest) => (.list items, rest)
    | '\x7b' :: rest =>
      match skipSpace rest with
      | '\x7d' :: rest => some (.table [], rest)
      | rest => (takeMembers fuel rest).map fun (members, rest) => (.table members, rest)
    | c :: rest =>
      if c.isAlpha then takeWordValue (c :: rest)
      else (takeNumeral (c :: rest)).map fun (n, rest) => (n.toDocument, rest)
    | [] => none

/-- The elements of a list up to its end. -/
def takeItems : Nat → List Char → Option (List Document × List Char)
  | 0, _ => none
  | fuel + 1, cs => do
    let (item, rest) ← takeValue fuel cs
    match skipSpace rest with
    | ']' :: rest => return ([item], rest)
    | ',' :: rest =>
      let (items, rest) ← takeItems fuel rest
      return (item :: items, rest)
    | _ => none

/-- The members of a table up to its end. -/
def takeMembers : Nat → List Char → Option (List (Option String × Document) × List Char)
  | 0, _ => none
  | fuel + 1, cs =>
    match skipSpace cs with
    | '"' :: rest => do
      let (key, rest) ← takeText rest
      match skipSpace rest with
      | ':' :: rest =>
        let (value, rest) ← takeValue fuel rest
        match skipSpace rest with
        | '\x7d' :: rest => return ([(key, value)], rest)
        | ',' :: rest =>
          let (members, rest) ← takeMembers fuel rest
          return ((key, value) :: members, rest)
        | _ => none
      | _ => none
    | _ => none

end

/-- The document that a whole text holds. -/
def read (text : String) : Option Document :=
  let cs := text.toList
  match takeValue (2 * cs.length + 2) cs with
  | some (d, rest) => if (skipSpace rest).isEmpty then some d else none
  | none => none

end Embroidery.Json
