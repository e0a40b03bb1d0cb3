/-
  Whole numbers among the doubles, and the words that spell them.

  A whole number up to 2^53 is held exactly: its count of units is a multiple of a power of two that
  leaves at most 53 significant bits, and such a count is its own nearest one (`nearest_of_dvd`).
  So comparisons and conversions of small whole numbers are those of the naturals.

  The decimal digits of a natural number are a number word, and the word reads as the double nearest
  to that number (`readNumber_naturalChars`), whatever its size.  For a machine word nothing is lost
  on the way (`asMachineWord_ofNat`).
-/
import Embroidery.Instruction.Parser
import Embroidery.Instruction.Printer

namespace Embroidery

-- Powers of naturals are those of core, whatever other instances are at hand.
attribute [local instance (2000)] instPowNat

/-! ## Exact counts -/

/-- A multiple of the rounding step is not moved by rounding. -/
theorem roundHalfEven_of_dvd {num den : Nat} (hden : 0 < den) (h : den ∣ num) :
    roundHalfEven num den = num / den := by
  have hmod : num % den = 0 := Nat.mod_eq_zero_of_dvd h
  unfold roundHalfEven
  dsimp only
  rw [hmod, if_pos (by omega)]

/-- A count with at most 53 significant bits is its own nearest one. -/
theorem nearest_of_dvd {units : Nat} (h : 2 ^ (units.log2 - 52) ∣ units) :
    nearest units 1 = units := by
  have hstep : spacing units 1 = 2 ^ (units.log2 - 52) := by rw [spacing, Nat.div_one]
  rw [nearest, hstep, Nat.one_mul, roundHalfEven_of_dvd (Nat.two_pow_pos _) h]
  exact Nat.div_mul_cancel h

theorem mul_two_pow_lt {n bits places : Nat} (hn : n ≤ 2 ^ (53 : Nat)) (hbits : 53 < bits) :
    n * 2 ^ places < 2 ^ (bits + places) := by
  have hlt : n < 2 ^ bits := Nat.lt_of_le_of_lt hn (Nat.pow_lt_pow_right (by decide) hbits)
  rw [Nat.pow_add]
  exact Nat.mul_lt_mul_of_pos_right hlt (Nat.two_pow_pos _)

/-- A whole number up to 2^53 fits. -/
theorem fits_whole {n : Nat} (hn : n ≤ 2 ^ (53 : Nat)) : Fits (n * unitsInOne) := by
  constructor
  · unfold unitsLimit unitsInOne
    exact mul_two_pow_lt hn (by decide)
  · unfold unitsInOne
    exact spacing_dvd_of_le hn

namespace Binary64

/-- A count that fits is held exactly. -/
theorem ofQuotient_of_fits (negative : Bool) {units : Nat} (h : Fits units) :
    ofQuotient negative units 1 = .finite negative units h := by
  have hnear := nearest_of_dvd h.2
  unfold ofQuotient
  rw [dif_pos (by rw [hnear]; exact h.1)]
  congr 1

/-- A whole number up to 2^53 is held exactly. -/
theorem ofNat_eq {n : Nat} (hn : n ≤ 2 ^ (53 : Nat)) :
    ofNat n = .finite false (n * unitsInOne) (fits_whole hn) :=
  ofQuotient_of_fits false (fits_whole hn)

theorem ofNat_zero : (0 : Binary64) = zero false := by decide +kernel

theorem ofNat_hundred :
    (100 : Binary64) = .finite false (100 * unitsInOne) (fits_whole (by decide)) :=
  ofNat_eq (by decide)

/-! ## Comparison and conversion -/

theorem signed_false (units : Nat) : signed false units = units := rfl

theorem lt_ofNat_iff {m n : Nat} (hm : m ≤ 2 ^ (53 : Nat)) (hn : n ≤ 2 ^ (53 : Nat)) :
    ofNat m < ofNat n ↔ m < n := by
  show lt (ofNat m) (ofNat n) = true ↔ m < n
  rw [ofNat_eq hm, ofNat_eq hn]
  simp only [lt, signed_false, decide_eq_true_eq, Int.ofNat_lt]
  exact Nat.mul_lt_mul_right unitsInOne_pos

theorem eq_ofNat_iff {m n : Nat} (hm : m ≤ 2 ^ (53 : Nat)) (hn : n ≤ 2 ^ (53 : Nat)) :
    (ofNat m).eq (ofNat n) = true ↔ m = n := by
  rw [ofNat_eq hm, ofNat_eq hn]
  simp only [eq, signed_false, decide_eq_true_eq, Int.ofNat_inj]
  exact Nat.mul_left_inj (Nat.ne_of_gt unitsInOne_pos)

theorem le_ofNat_iff {m n : Nat} (hm : m ≤ 2 ^ (53 : Nat)) (hn : n ≤ 2 ^ (53 : Nat)) :
    ofNat m ≤ ofNat n ↔ m ≤ n := by
  show le (ofNat m) (ofNat n) = true ↔ m ≤ n
  rw [le, Bool.or_eq_true, eq_ofNat_iff hm hn]
  have hlt : lt (ofNat m) (ofNat n) = true ↔ m < n := lt_ofNat_iff hm hn
  rw [hlt]
  omega

theorem isFinite_ofNat {n : Nat} (hn : n ≤ 2 ^ (53 : Nat)) : (ofNat n).isFinite = true := by
  rw [ofNat_eq hn]
  rfl

/-- A whole number is its own whole part, held between the bounds. -/
theorem toIntWithin_ofNat {low high : Int} {n : Nat} (hn : n ≤ 2 ^ (53 : Nat)) :
    toIntWithin low high (ofNat n) = max low (min high n) := by
  rw [ofNat_eq hn]
  simp only [toIntWithin, Nat.mul_div_cancel n unitsInOne_pos, signed_false]

theorem toUInt32_ofNat (n : UInt32) : (ofNat n.toNat).toUInt32 = n := by
  have hlt := n.toNat_lt
  have hsize : ((UInt32.size : Int) - 1) = 4294967295 := rfl
  rw [toUInt32, toIntWithin_ofNat (by omega), hsize]
  have hint : (max 0 (min 4294967295 (n.toNat : Int))).toNat = n.toNat := by omega
  rw [hint]
  exact UInt32.ofNat_toNat

theorem toUInt8_ofNat (n : UInt8) : (ofNat n.toNat).toUInt8 = n := by
  have hlt := n.toNat_lt
  rw [toUInt8, toIntWithin_ofNat (by omega)]
  have hint : (max 0 (min 255 (n.toNat : Int))).toNat = n.toNat := by omega
  rw [hint]
  exact UInt8.ofNat_toNat

end Binary64

/-- A machine word survives being written and read. -/
theorem asMachineWord_ofNat (n : UInt32) : asMachineWord (Binary64.ofNat n.toNat) = some n := by
  have hlt := n.toNat_lt
  have hlow : Binary64.ofNat 0 ≤ Binary64.ofNat n.toNat :=
    (Binary64.le_ofNat_iff (by omega) (by omega)).2 (Nat.zero_le _)
  have hhigh : Binary64.ofNat n.toNat ≤ Binary64.ofNat 4294967295 :=
    (Binary64.le_ofNat_iff (by omega) (by omega)).2 (by omega)
  rw [asMachineWord, if_pos ⟨hlow, hhigh⟩, Binary64.toUInt32_ofNat]

/-! ## Digits -/

theorem isDigit_of_mem_naturalChars {n : Nat} {c : Char} (h : c ∈ naturalChars n) :
    c.isDigit = true :=
  Nat.isDigit_of_mem_toDigits (by decide) (by decide) h

theorem naturalChars_ne_nil (n : Nat) : naturalChars n ≠ [] := Nat.toDigits_ne_nil

theorem digitsValue_naturalChars (n : Nat) : digitsValue (naturalChars n) = n :=
  Nat.ofDigitChars_ten_toDigits

/-- A digit is neither a sign nor the start of a name. -/
theorem isDigit_iff {c : Char} : c.isDigit = true ↔ 48 ≤ c.toNat ∧ c.toNat ≤ 57 := by
  simp only [Char.isDigit, Bool.and_eq_true, decide_eq_true_eq, UInt32.le_iff_toNat_le]
  rfl

/-- Digits alone are a number without exponent. -/
theorem readUnsigned_digits {cs : List Char} (negative : Bool) (hne : cs ≠ [])
    (hdigits : ∀ c ∈ cs, c.isDigit = true) :
    readUnsigned negative cs = some ⟨negative, digitsValue cs, 0⟩ := by
  have htake : cs.takeWhile Char.isDigit = cs := by
    simpa using @List.takeWhile_append_of_pos _ _ cs [] hdigits
  have hdrop : cs.dropWhile Char.isDigit = [] := by
    simpa using @List.dropWhile_append_of_pos _ _ cs [] hdigits
  have hempty : cs.isEmpty = false := by simpa using hne
  unfold readUnsigned
  rw [htake, hdrop]
  simp [hempty, readExponent, digitsFrom]

/-- A digit in front is no sign. -/
theorem takeSign_of_isDigit {d : Char} {rest : List Char} (hd : d.isDigit = true) :
    takeSign (d :: rest) = (false, d :: rest) := by
  unfold takeSign
  split
  · next heq => rw [(List.cons.inj heq).1] at hd; exact absurd hd (by decide)
  · next heq => rw [(List.cons.inj heq).1] at hd; exact absurd hd (by decide)
  · rfl

/-- A word with a digit in front is none of the names of numbers. -/
theorem lowered_ne_of_isDigit {d first : Char} {rest name : List Char} (hd : d.isDigit = true)
    (hfirst : first.isDigit = false) : (d :: rest).map Char.toLower ≠ first :: name := by
  intro h
  have hlow : d.toLower = d := by
    refine dif_neg ?_
    rintro ⟨hge, -⟩
    have hrange := isDigit_iff.1 hd
    have hcapital : (65 : Nat) ≤ d.toNat := hge
    omega
  rw [List.map_cons, hlow] at h
  rw [(List.cons.inj h).1, hfirst] at hd
  exact Bool.noConfusion hd

/-- A word with a digit in front, or behind a minus sign, is read as digits. -/
theorem readNumber_of_isDigit {d : Char} {rest : List Char} (negative : Bool)
    (hd : d.isDigit = true) :
    readNumber ((if negative then ['-'] else []) ++ d :: rest) =
      (readUnsigned negative (d :: rest)).map Decimal.toBinary64 := by
  have hsign : takeSign ((if negative then ['-'] else []) ++ d :: rest) =
      (negative, d :: rest) := by
    cases negative with
    | true => rfl
    | false => exact takeSign_of_isDigit hd
  have hinf : (d :: rest).map Char.toLower ≠ "inf".toList := lowered_ne_of_isDigit hd (by decide)
  have hinfinity : (d :: rest).map Char.toLower ≠ "infinity".toList :=
    lowered_ne_of_isDigit hd (by decide)
  have hnan : (d :: rest).map Char.toLower ≠ "nan".toList := lowered_ne_of_isDigit hd (by decide)
  unfold readNumber
  rw [hsign]
  dsimp only
  rw [if_neg (by simp only [hinf, hinfinity, decide_false, Bool.or_self, Bool.false_eq_true,
    not_false_eq_true]), if_neg hnan]

/-- Whole digits without exponent stand for the double nearest to their value. -/
theorem toBinary64_whole (negative : Bool) (n : Nat) :
    Decimal.toBinary64 ⟨negative, n, 0⟩ = Binary64.ofQuotient negative (n * unitsInOne) 1 := by
  unfold Decimal.toBinary64
  by_cases hn : n = 0
  · subst hn
    rw [if_pos rfl, Nat.zero_mul, Binary64.ofQuotient_of_fits negative Binary64.fits_zero]
    rfl
  · rw [if_neg hn, if_neg (show ¬(310 : Int) < 0 by decide), if_neg (by simp),
      if_pos (Int.le_refl 0)]
    simp only [Int.toNat_zero, Nat.pow_zero, Nat.mul_one]

/-- The digits of a natural number, behind a minus sign or not, read as the double nearest to it. -/
theorem readNumber_signedChars (negative : Bool) (n : Nat) :
    readNumber ((if negative then ['-'] else []) ++ naturalChars n) =
      some (Binary64.ofQuotient negative (n * unitsInOne) 1) := by
  have hdigits : ∀ c ∈ naturalChars n, c.isDigit = true := by
    intro c hc
    exact isDigit_of_mem_naturalChars hc
  have hread := readUnsigned_digits negative (naturalChars_ne_nil n) hdigits
  rw [digitsValue_naturalChars] at hread
  cases hchars : naturalChars n with
  | nil => exact absurd hchars (naturalChars_ne_nil n)
  | cons d rest =>
    rw [hchars] at hdigits hread
    rw [readNumber_of_isDigit negative (hdigits d List.mem_cons_self), hread, Option.map_some,
      toBinary64_whole]

/-- The digits of a natural number read as the double nearest to it. -/
theorem readNumber_naturalChars (n : Nat) :
    readNumber (naturalChars n) = some (Binary64.ofNat n) :=
  readNumber_signedChars false n

end Embroidery
