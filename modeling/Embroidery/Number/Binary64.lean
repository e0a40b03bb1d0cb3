/-
  Numbers of double precision, held exactly.

  Every finite double is a whole number of units of 2^-1074, the least positive double.  So a
  finite number is a sign and a count of units, and the counts that occur are those with at most
  53 significant bits (`Fits`).  Each operation computes its exact result as a quotient of two
  naturals, counted in units, and rounds it once (`nearest`: to the nearest count that fits, an
  exact tie to the even neighbour).

    1. `roundHalfEven`, `nearest` — the one rounding, and the proof that what it gives fits.
    2. `Binary64` — the numbers, with `ofQuotient` as the only way in.
    3. Arithmetic, comparison, whole parts, conversion to integers.
-/
namespace Embroidery

-- Powers of naturals are those of core, whatever other instances are at hand.
attribute [local instance (2000)] instPowNat

/-! ## Rounding a quotient -/

/-- `num / den` to the nearest natural; of two equally near ones the even. -/
def roundHalfEven (num den : Nat) : Nat :=
  let q := num / den
  let r := num % den
  if 2 * r < den then q
  else if den < 2 * r then q + 1
  else if q % 2 = 0 then q else q + 1

/-- A double has 1074 binary places. -/
@[irreducible] def binaryPlaces : Nat := 1074

/-- The number of units in one. -/
@[irreducible] def unitsInOne : Nat := 2 ^ binaryPlaces

/-- The least power of two that is beyond every finite double, in units: 2^1024 itself. -/
@[irreducible] def unitsLimit : Nat := 2 ^ (1024 + binaryPlaces)

theorem unitsInOne_pos : 0 < unitsInOne := by unfold unitsInOne; exact Nat.two_pow_pos _
theorem unitsLimit_pos : 0 < unitsLimit := by unfold unitsLimit; exact Nat.two_pow_pos _

/-- A count of units that a double can hold: below the limit, and with all bits but the leading 53
    equal to zero. -/
def Fits (units : Nat) : Prop := units < unitsLimit ∧ 2 ^ (units.log2 - 52) ∣ units

instance (units : Nat) : Decidable (Fits units) := inferInstanceAs (Decidable (_ ∧ _))

/-- The spacing of the doubles around the quotient `num / den`, in units. -/
def spacing (num den : Nat) : Nat := 2 ^ ((num / den).log2 - 52)

/-- The quotient `num / den` rounded to 53 significant bits, but no finer than one unit. -/
def nearest (num den : Nat) : Nat :=
  roundHalfEven num (den * spacing num den) * spacing num den

theorem roundHalfEven_le {num den bound : Nat} (h : num < den * bound) :
    roundHalfEven num den ≤ bound := by
  have hq : num / den < bound := Nat.div_lt_of_lt_mul h
  unfold roundHalfEven
  dsimp only
  split
  · omega
  · split
    · omega
    · split <;> omega

/-- A quotient has less than twice the bits that its spacing leaves it. -/
theorem quotient_lt_spacing (num den : Nat) (hden : 0 < den) :
    num < den * spacing num den * 2 ^ (53 : Nat) := by
  have h1 : num / den < 2 ^ ((num / den).log2 + 1) := Nat.lt_log2_self
  have h2 : (2 : Nat) ^ ((num / den).log2 + 1) ≤ spacing num den * 2 ^ (53 : Nat) := by
    unfold spacing
    rw [← Nat.pow_add]
    exact Nat.pow_le_pow_right (by omega) (by omega)
  have h3 : num / den < spacing num den * 2 ^ (53 : Nat) := Nat.lt_of_lt_of_le h1 h2
  have h4 := (Nat.div_lt_iff_lt_mul hden).1 h3
  rw [Nat.mul_assoc, Nat.mul_comm den]
  exact h4

/-- A multiple of a power of two with at most 53 bits above it has only its leading 53 bits. -/
theorem spacing_dvd_of_le {q e : Nat} (hq : q ≤ 2 ^ (53 : Nat)) :
    2 ^ ((q * 2 ^ e).log2 - 52) ∣ q * 2 ^ e := by
  by_cases h : q = 2 ^ (53 : Nat)
  · subst h
    rw [← Nat.pow_add, Nat.log2_two_pow]
    exact Nat.pow_dvd_pow 2 (by omega)
  · apply Nat.dvd_trans (Nat.pow_dvd_pow 2 (n := e) ?_) (Nat.dvd_mul_left ..)
    by_cases h0 : q * 2 ^ e = 0
    · rw [h0]; simp
    · have h1 : q * 2 ^ e < 2 ^ (53 + e) := by
        rw [Nat.pow_add]
        exact Nat.mul_lt_mul_of_pos_right (by omega) (Nat.two_pow_pos e)
      have h2 := (Nat.log2_lt h0).2 h1
      omega

/-- What rounding gives has at most 53 significant bits. -/
theorem nearest_dvd (num den : Nat) : 2 ^ ((nearest num den).log2 - 52) ∣ nearest num den := by
  unfold nearest
  by_cases hden : den = 0
  · subst hden
    have h : nearest num 0 = 0 ∨ nearest num 0 = 1 := by
      simp only [nearest, spacing, roundHalfEven, Nat.zero_mul, Nat.div_zero, Nat.mod_zero]
      split
      · simp
      · split
        · simp
        · split <;> simp_all
    unfold nearest at h
    rcases h with h | h <;> rw [h] <;> decide
  · apply spacing_dvd_of_le
    exact roundHalfEven_le (quotient_lt_spacing num den (by omega))

/-! ## The numbers -/

/-- A double: not a number, an infinity, or a signed count of units of 2^-1074.  The two zeros
    differ in their sign. -/
inductive Binary64 where
  | nan
  | infinite (negative : Bool)
  | finite (negative : Bool) (units : Nat) (fits : Fits units)
deriving DecidableEq

namespace Binary64

theorem fits_zero : Fits 0 := ⟨unitsLimit_pos, Nat.dvd_zero _⟩

/-- The zero with the given sign. -/
def zero (negative : Bool) : Binary64 := .finite negative 0 fits_zero

instance : Inhabited Binary64 := ⟨zero false⟩

/-- The double nearest to `num / den` units; infinite when that is beyond every finite one. -/
def ofQuotient (negative : Bool) (num den : Nat) : Binary64 :=
  if h : nearest num den < unitsLimit then
    .finite negative (nearest num den) ⟨h, nearest_dvd num den⟩
  else .infinite negative

/-- The double nearest to a natural number. -/
def ofNat (n : Nat) : Binary64 := ofQuotient false (n * unitsInOne) 1

/-- The double nearest to an integer. -/
def ofInt (i : Int) : Binary64 := ofQuotient (decide (i < 0)) (i.natAbs * unitsInOne) 1

instance (n : Nat) : OfNat Binary64 n := ⟨ofNat n⟩

def isNaN : Binary64 → Bool
  | .nan => true
  | _ => false

def isFinite : Binary64 → Bool
  | .finite .. => true
  | _ => false

/-- The sign bit; a number that is none has no sign. -/
def isNegative : Binary64 → Bool
  | .nan => false
  | .infinite negative => negative
  | .finite negative _ _ => negative

/-- A signed count of units. -/
def signed (negative : Bool) (units : Nat) : Int := if negative then -(units : Int) else units

/-! ## Arithmetic -/

def neg : Binary64 → Binary64
  | .nan => .nan
  | .infinite n => .infinite !n
  | .finite n u h => .finite (!n) u h

/-- Sums of finite numbers are exact in units and rounded once.  A sum of zero is negative only if
    both terms are. -/
def add : Binary64 → Binary64 → Binary64
  | .nan, _ => .nan
  | _, .nan => .nan
  | .infinite m, .infinite n => if m = n then .infinite m else .nan
  | .infinite m, .finite .. => .infinite m
  | .finite .., .infinite n => .infinite n
  | .finite m u _, .finite n v _ =>
    let total := signed m u + signed n v
    if total = 0 then zero (m && n) else ofQuotient (decide (total < 0)) total.natAbs 1

def sub (a b : Binary64) : Binary64 := add a (neg b)

def mul : Binary64 → Binary64 → Binary64
  | .nan, _ => .nan
  | _, .nan => .nan
  | .infinite m, .infinite n => .infinite (m != n)
  | .infinite m, .finite n v _ => if v = 0 then .nan else .infinite (m != n)
  | .finite m u _, .infinite n => if u = 0 then .nan else .infinite (m != n)
  | .finite m u _, .finite n v _ => ofQuotient (m != n) (u * v) unitsInOne

def div : Binary64 → Binary64 → Binary64
  | .nan, _ => .nan
  | _, .nan => .nan
  | .infinite _, .infinite _ => .nan
  | .infinite m, .finite n _ _ => .infinite (m != n)
  | .finite m _ _, .infinite n => zero (m != n)
  | .finite m u _, .finite n v _ =>
    if v = 0 then (if u = 0 then .nan else .infinite (m != n))
    else ofQuotient (m != n) (u * unitsInOne) v

instance : Neg Binary64 := ⟨neg⟩
instance : Add Binary64 := ⟨add⟩
instance : Sub Binary64 := ⟨sub⟩
instance : Mul Binary64 := ⟨mul⟩
instance : Div Binary64 := ⟨div⟩

/-- The whole part of the square root of a natural number. -/
def wholeRoot (n : Nat) : Nat :=
  if h : n = 0 then 0
  else
    let r := 2 * wholeRoot (n / 4)
    if (r + 1) * (r + 1) ≤ n then r + 1 else r
termination_by n
decreasing_by exact Nat.div_lt_self (Nat.pos_of_ne_zero h) (by decide)

/-- The square root of `units` units, in units, is the root of `units * unitsInOne`.  An even number
    of low bits is dropped so that 120 bits remain; the root's whole part then has more than 54
    bits, and a half added to it stands for everything below. -/
def sqrt : Binary64 → Binary64
  | .nan => .nan
  | .infinite n => if n then .nan else .infinite false
  | .finite n u h =>
    if u = 0 then .finite n u h
    else if n then .nan
    else
      let square := u * unitsInOne
      let shift := square.log2 / 2 - 60
      let root := wholeRoot (square / 4 ^ shift)
      let rest := if root * root * 4 ^ shift = square then 0 else 1
      ofQuotient false ((2 * root + rest) * 2 ^ shift) 2

/-- `a` to a natural power, by squaring: the squares of `a` that the binary digits of the exponent
    select are multiplied from the least upwards, each product rounded. -/
def powNat (a : Binary64) (n : Nat) : Binary64 := go a n 1
where
  go (a : Binary64) (n : Nat) (acc : Binary64) : Binary64 :=
    let acc := if n % 2 = 1 then acc * a else acc
    if _h : n / 2 = 0 then acc else go (a * a) (n / 2) acc
  termination_by n
  decreasing_by omega

/-- A negative power is the reciprocal of the positive one. -/
def powInt (a : Binary64) : Int → Binary64
  | .ofNat n => powNat a n
  | .negSucc n => 1 / powNat a (n + 1)

/-! ## Comparison -/

/-- Less than; false as soon as one side is not a number. -/
def lt : Binary64 → Binary64 → Bool
  | .nan, _ => false
  | _, .nan => false
  | .infinite m, .infinite n => m && !n
  | .infinite m, .finite .. => m
  | .finite .., .infinite n => !n
  | .finite m u _, .finite n v _ => decide (signed m u < signed n v)

/-- Numeric equality: the two zeros are equal, and what is not a number equals nothing. -/
def eq : Binary64 → Binary64 → Bool
  | .infinite m, .infinite n => m == n
  | .finite m u _, .finite n v _ => decide (signed m u = signed n v)
  | _, _ => false

def le (a b : Binary64) : Bool := lt a b || eq a b

instance : LT Binary64 := ⟨fun a b => lt a b = true⟩
instance : LE Binary64 := ⟨fun a b => le a b = true⟩
instance (a b : Binary64) : Decidable (a < b) := inferInstanceAs (Decidable (_ = true))
instance (a b : Binary64) : Decidable (a ≤ b) := inferInstanceAs (Decidable (_ = true))

/-- The smaller operand; the first of two equal ones, and the number if only one is a number. -/
def least (a b : Binary64) : Binary64 :=
  if a.isNaN then b else if b < a then b else a

/-- The larger operand, under the same conventions. -/
def greatest (a b : Binary64) : Binary64 :=
  if a.isNaN then b else if a < b then b else a

/-- A number held between two bounds; what is not a number stays so. -/
def clamp (a low high : Binary64) : Binary64 :=
  if a < low then low else if high < a then high else a

/-! ## Whole parts and integers -/

/-- To the nearest whole number, halves away from zero; the sign stays. -/
def round : Binary64 → Binary64
  | .finite n u _ => ofQuotient n ((2 * u + unitsInOne) / (2 * unitsInOne) * unitsInOne) 1
  | a => a

/-- The largest whole number that is not above. -/
def floor : Binary64 → Binary64
  | .finite n u _ =>
    let whole := u / unitsInOne
    ofQuotient n ((if n && u % unitsInOne != 0 then whole + 1 else whole) * unitsInOne) 1
  | a => a

/-- The part of a number left over by whole multiples of one, never negative. -/
def fraction : Binary64 → Binary64
  | .finite n u _ =>
    let rest := ofQuotient n (u % unitsInOne) 1
    if rest < 0 then rest + 1 else rest
  | _ => .nan

/-- The integer reached by dropping the fraction, held between two bounds.  What is not a number
    counts as zero. -/
def toIntWithin (low high : Int) : Binary64 → Int
  | .nan => 0
  | .infinite n => if n then low else high
  | .finite n u _ => max low (min high (signed n (u / unitsInOne)))

/-- To a signed integer of 64 bits. -/
def toInt64 (a : Binary64) : Int :=
  toIntWithin Int64.minValue.toInt Int64.maxValue.toInt a

/-- To an unsigned integer of 32 bits. -/
def toUInt32 (a : Binary64) : UInt32 :=
  UInt32.ofNat (toIntWithin 0 (UInt32.size - 1) a).toNat

/-- To an unsigned integer of 8 bits. -/
def toUInt8 (a : Binary64) : UInt8 := UInt8.ofNat (toIntWithin 0 255 a).toNat

example : (1 : Binary64) / 3 * 3 = 1 := by decide +kernel
example : sqrt (3 * 3 + 4 * 4) = 5 := by decide +kernel

end Binary64
end Embroidery
