/-
  Writing doubles in decimal digits.

  Two ways are in use.

    1. Shortest (`shortestDecimal`): of all decimals that read back as the number those with the
       fewest digits, of these the nearest to the number, and of two equally near ones the one that
       the style names.  `NumberStyle` says how the digits are laid out.
    2. Fixed (`fixedChars`): a set number of places, rounded from the exact value, ties to even.

  The decimals that read back as `units` lie between the middles to its two neighbours, the middles
  included when the last bit of `units` is even.  Below a power of two the neighbour is half as far.
  All comparisons are between naturals, in quarters of a unit.
-/
import Embroidery.Number.Decimal

namespace Embroidery

-- Powers of naturals are those of core, whatever other instances are at hand.
attribute [local instance (2000)] instPowNat

/-! ## Which digits -/

/-- `a · 10^i` as a quotient of naturals. -/
def scaled (a : Nat) (i : Int) : Nat × Nat :=
  if 0 ≤ i then (a * 10 ^ i.toNat, 1) else (a, 10 ^ (-i).toNat)

/-- The distance from `units` to the next double above. -/
def gapAbove (units : Nat) : Nat := 2 ^ (units.log2 - 52)

/-- The distance from `units` to the next double below: half the gap above at a power of two, but
    never less than one unit. -/
def gapBelow (units : Nat) : Nat :=
  if units = 2 ^ units.log2 ∧ 53 ≤ units.log2 then gapAbove units / 2 else gapAbove units

/-- `digits · 10^exponent` lies among the numbers that round to `units`. -/
def readsBack (units digits : Nat) (exponent : Int) : Bool :=
  let (num, den) := scaled digits exponent
  let value := 4 * num * unitsInOne
  let low := (4 * units - 2 * gapBelow units) * den
  let high := (4 * units + 2 * gapAbove units) * den
  if units / gapAbove units % 2 = 0 then low ≤ value && value ≤ high
  else low < value && value < high

/-- The exponent of the leading decimal digit of `units` (not zero): the largest power of ten that
    is not above.  It is one of three that the binary length leaves. -/
def leadingExponent (units : Nat) : Int :=
  let bits : Int := (units.log2 : Int) - binaryPlaces
  let guess := (bits * 30103).fdiv 100000 - 1
  let notAbove (e : Int) : Bool :=
    let (num, den) := scaled 1 e
    num * unitsInOne ≤ units * den
  if notAbove (guess + 2) then guess + 2 else if notAbove (guess + 1) then guess + 1 else guess

/-- The decimal with the given exponent that is nearest to `units` and reads back, if one does.
    Only the two neighbours of the value on that grid can. -/
def onGrid (tieUp : Bool) (units : Nat) (exponent : Int) : Option Nat :=
  let (num, den) := scaled 1 exponent
  let unit := num * unitsInOne
  let below := units * den / unit
  let rest := units * den % unit
  match readsBack units below exponent, readsBack units (below + 1) exponent with
  | false, false => none
  | true, false => some below
  | false, true => some (below + 1)
  | true, true =>
    if 2 * rest < unit then some below
    else if unit < 2 * rest then some (below + 1)
    else some (if tieUp || below % 2 = 1 then below + 1 else below)

/-- The digits without zeros at their end, and the exponent raised accordingly. -/
def stripZeros (digits : Nat) (exponent : Int) : Nat × Int :=
  if h : digits ≠ 0 ∧ digits % 10 = 0 then stripZeros (digits / 10) (exponent + 1)
  else (digits, exponent)
termination_by digits
decreasing_by omega

/-- The fewest digits that read back as `units` (not zero), with their exponent.  Seventeen always
    suffice; the exact value stands behind them. -/
def shortestDecimal (tieUp : Bool) (units : Nat) : Nat × Int :=
  let lead := leadingExponent units
  let found := (List.range 17).findSome? fun (n : Nat) =>
    (onGrid tieUp units (lead - (n : Int))).map fun digits => (digits, lead - (n : Int))
  let (digits, exponent) := found.getD (units * 5 ^ binaryPlaces, -(binaryPlaces : Int))
  stripZeros digits exponent

/-! ## How they are laid out -/

/-- The decisions of a written form of doubles. -/
structure NumberStyle where
  /-- The exponents of the leading digit from which on and below which all digits are written out;
      `none` writes them out always. -/
  plainWithin : Option (Int × Int)
  /-- A whole number ends in `.0`. -/
  pointZero : Bool
  /-- A positive exponent carries a sign. -/
  plusExponent : Bool
  /-- Of two equally near decimals the upper is taken, not the even. -/
  tieUp : Bool
  notANumber : String
  infinity : String

/-- All digits written out, with a point where the exponent puts it. -/
def plainChars (pointZero : Bool) (digits : Nat) (exponent : Int) : List Char :=
  let ds := naturalChars digits
  if 0 ≤ exponent then
    ds ++ List.replicate exponent.toNat '0' ++ (if pointZero then ['.', '0'] else [])
  else
    let places := (-exponent).toNat
    let padded := List.replicate (places + 1 - ds.length) '0' ++ ds
    padded.take (padded.length - places) ++ '.' :: padded.drop (padded.length - places)

/-- One digit before the point, the others behind it, and an exponent. -/
def exponentChars (plus : Bool) (digits : Nat) (exponent : Int) : List Char :=
  let ds := naturalChars digits
  let power := exponent + (ds.length : Int) - 1
  let mantissa := match ds with
    | [] => []
    | [d] => [d]
    | d :: rest => d :: '.' :: rest
  mantissa ++ 'e' :: (if plus && decide (0 ≤ power) then ['+'] else []) ++ integerChars power

/-- A double in its shortest digits. -/
def NumberStyle.chars (style : NumberStyle) : Binary64 → List Char
  | .nan => style.notANumber.toList
  | .infinite negative => (if negative then ['-'] else []) ++ style.infinity.toList
  | .finite negative units _ =>
    let sign := if negative then ['-'] else []
    if units = 0 then sign ++ plainChars style.pointZero 0 0
    else
      let (digits, exponent) := shortestDecimal style.tieUp units
      let lead := exponent + ((naturalChars digits).length : Int) - 1
      let plain := match style.plainWithin with
        | none => true
        | some (low, high) => decide (low ≤ lead) && decide (lead < high)
      sign ++ (if plain then plainChars style.pointZero digits exponent
        else exponentChars style.plusExponent digits exponent)

def NumberStyle.text (style : NumberStyle) (v : Binary64) : String := String.ofList (style.chars v)

/-- Numbers in messages: all digits, no point after whole ones. -/
def messageStyle : NumberStyle where
  plainWithin := none
  pointZero := false
  plusExponent := false
  tieUp := true
  notANumber := "NaN"
  infinity := "inf"

/-! ## A fixed number of places -/

/-- A double with a fixed number of places, the exact value rounded with ties to even.  The sign of
    a negative number stays even when all digits are zero. -/
def fixedChars (places : Nat) : Binary64 → List Char
  | .nan => "NaN".toList
  | .infinite negative => (if negative then ['-'] else []) ++ "inf".toList
  | .finite negative units _ =>
    let scaledValue := roundHalfEven (units * 10 ^ places) unitsInOne
    (if negative then ['-'] else []) ++ plainChars false scaledValue (-(places : Int))

def fixedText (places : Nat) (v : Binary64) : String := String.ofList (fixedChars places v)

example : fixedText 2 (1 / 8) = "0.12" := by decide +kernel
example : messageStyle.text (1 / 3) = "0.3333333333333333" := by decide +kernel

end Embroidery
