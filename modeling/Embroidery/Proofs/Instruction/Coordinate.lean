/-
  Which coordinates come back.

  A coordinate is multiplied by a hundred, rounded to a whole number, divided again and written with
  two places.  Only the multiplication can leave the finite numbers: a rounded product is a double
  that division makes smaller (`isFinite_roundTo`), and two places of a finite number spell a finite
  number (`readNumber_fixedChars_finite`).  So the text of a coordinate spells a finite number
  exactly when a hundred times the coordinate is finite (`isSome_readBack`).

  This is no matter for coordinates of ordinary size: each operation on the way is bounded by a
  power of two (`Binary64.Within`), and up to 10^300 no bound is too large
  (`isFinite_toMachine_mul`).
-/
import Embroidery.Proofs.Instruction.Reread
import Embroidery.Proofs.Number.Rounding

namespace Embroidery

-- Powers of naturals are those of core, whatever other instances are at hand.
attribute [local instance (2000)] instPowNat

/-! ## Digits with a point -/

/-- Zeros in front do not count. -/
theorem digitsValue_zeros_append (count : Nat) (cs : List Char) :
    digitsValue (List.replicate count '0' ++ cs) = digitsValue cs := by
  induction count with
  | zero => rfl
  | succ count ih => exact ih

/-- Digits around a point are a number with as many places as digits behind the point. -/
theorem readUnsigned_point {whole places : List Char} (negative : Bool) (hne : whole ≠ [])
    (hwhole : ∀ c ∈ whole, c.isDigit = true) (hplaces : ∀ c ∈ places, c.isDigit = true) :
    readUnsigned negative (whole ++ '.' :: places) =
      some ⟨negative, digitsValue (whole ++ places), -(places.length : Int)⟩ := by
  have htake : (whole ++ '.' :: places).takeWhile Char.isDigit = whole := by
    rw [List.takeWhile_append_of_pos hwhole, List.takeWhile_cons_of_neg (by decide),
      List.append_nil]
  have hdrop : (whole ++ '.' :: places).dropWhile Char.isDigit = '.' :: places := by
    rw [List.dropWhile_append_of_pos hwhole, List.dropWhile_cons_of_neg (by decide)]
  have htake' : places.takeWhile Char.isDigit = places := by
    simpa using @List.takeWhile_append_of_pos _ _ places [] hplaces
  have hdrop' : places.dropWhile Char.isDigit = [] := by
    simpa using @List.dropWhile_append_of_pos _ _ places [] hplaces
  have hempty : whole.isEmpty = false := by simpa using hne
  have hdigits : digitsFrom (digitsValue whole) places = digitsValue (whole ++ places) :=
    (List.foldl_append ..).symm
  unfold readUnsigned
  rw [htake, hdrop]
  simp [htake', hdrop', hempty, hdigits, readExponent]

/-- Written out digits with some places: a whole part, a point, and as many digits as places. -/
theorem plainChars_places (digits : Nat) {places : Nat} (hplaces : 0 < places) :
    ∃ d whole fraction, (∀ c ∈ d :: whole, c.isDigit = true) ∧
      (∀ c ∈ fraction, c.isDigit = true) ∧ fraction.length = places ∧
      digitsValue (d :: whole ++ fraction) = digits ∧
      plainChars false digits (-(places : Int)) = d :: whole ++ '.' :: fraction := by
  let padded :=
    List.replicate (places + 1 - (naturalChars digits).length) '0' ++ naturalChars digits
  have hdigit : ∀ c ∈ padded, c.isDigit = true := by
    refine List.forall_mem_append.2 ⟨?_, fun c hc => isDigit_of_mem_naturalChars hc⟩
    intro c hc
    rw [(List.mem_replicate.1 hc).2]
    decide
  have hlength : places + 1 ≤ padded.length := by
    rw [List.length_append, List.length_replicate]
    omega
  have hvalue : digitsValue padded = digits := by
    rw [digitsValue_zeros_append, digitsValue_naturalChars]
  have hchars : plainChars false digits (-(places : Int)) =
      padded.take (padded.length - places) ++ '.' :: padded.drop (padded.length - places) := by
    have hcount : (- -(places : Int)).toNat = places := by omega
    unfold plainChars
    dsimp only
    rw [if_neg (by omega), hcount]
  cases hwhole : padded.take (padded.length - places) with
  | nil =>
    rcases List.take_eq_nil_iff.1 hwhole with h | h
    · omega
    · rw [h, List.length_nil] at hlength
      omega
  | cons d whole =>
    refine ⟨d, whole, padded.drop (padded.length - places), ?_, ?_, ?_, ?_, ?_⟩
    · intro c hc
      exact hdigit c (List.mem_of_mem_take (hwhole ▸ hc))
    · intro c hc
      exact hdigit c (List.mem_of_mem_drop hc)
    · rw [List.length_drop]
      omega
    · rw [← hwhole, List.take_append_drop, hvalue]
    · rw [hchars, hwhole]

theorem readNumber_plainChars (negative : Bool) (digits : Nat) {places : Nat}
    (hplaces : 0 < places) :
    readNumber ((if negative then ['-'] else []) ++ plainChars false digits (-(places : Int))) =
      some (Decimal.toBinary64 ⟨negative, digits, -(places : Int)⟩) := by
  obtain ⟨d, whole, fraction, hwhole, hfraction, hlength, hdigits, hchars⟩ :=
    plainChars_places digits hplaces
  have hread := readUnsigned_point negative (List.cons_ne_nil d whole) hwhole hfraction
  rw [hchars, List.cons_append, readNumber_of_isDigit negative (hwhole d List.mem_cons_self),
    ← List.cons_append, hread, hdigits, hlength]
  rfl

/-! ## Two places -/

/-- Two places of a finite number spell a finite number. -/
theorem isFinite_toBinary64_places {units : Nat} (h : Fits units) (negative : Bool) :
    (Decimal.toBinary64 ⟨negative, roundHalfEven (units * 10 ^ coordinatePlaces) unitsInOne,
      -(coordinatePlaces : Int)⟩).isFinite = true := by
  -- a whole number is written exactly, and the others are small
  obtain ⟨bound, hbound, hdigits⟩ : ∃ bound, Fits bound ∧
      roundHalfEven (units * 10 ^ coordinatePlaces) unitsInOne * unitsInOne ≤ 100 * bound := by
    have hhundred : 10 ^ coordinatePlaces = 100 := rfl
    rw [hhundred]
    rcases whole_or_small h with ⟨k, rfl⟩ | hsmall
    · refine ⟨unitsInOne * k, h, ?_⟩
      rw [Nat.mul_assoc, roundHalfEven_of_dvd unitsInOne_pos (Nat.dvd_mul_right _ _),
        Nat.mul_div_cancel_left _ unitsInOne_pos, Nat.mul_comm k, Nat.mul_assoc]
      exact Nat.le_of_eq (congrArg (100 * ·) (Nat.mul_comm k unitsInOne))
    · refine ⟨2 ^ (52 : Nat) * unitsInOne, fits_whole (by decide), ?_⟩
      have hround : roundHalfEven (units * 100) unitsInOne ≤ 100 * 2 ^ (52 : Nat) := by
        refine roundHalfEven_le_of_le unitsInOne_pos ?_
        rw [Nat.mul_comm, Nat.mul_left_comm, Nat.mul_comm unitsInOne]
        exact Nat.mul_le_mul_left 100 (Nat.le_of_lt hsmall)
      rw [← Nat.mul_assoc]
      exact Nat.mul_le_mul_right unitsInOne hround
  unfold Decimal.toBinary64
  dsimp only
  split
  · rfl
  · rw [if_neg (by decide), if_neg (by simp [coordinatePlaces]; omega), if_neg (by decide)]
    exact Binary64.isFinite_ofQuotient (by decide) hbound hdigits

theorem readNumber_fixedChars_finite (negative : Bool) (units : Nat) (fits : Fits units) :
    ∃ v, readNumber (fixedChars coordinatePlaces (.finite negative units fits)) = some v ∧
      v.isFinite = true :=
  ⟨_, readNumber_plainChars negative _ (by decide), isFinite_toBinary64_places fits negative⟩

/-- The text of a number with two places spells a finite number if the number is finite. -/
theorem isSome_readNumber_fixedChars (v : Binary64) :
    ((readNumber (fixedChars coordinatePlaces v)).filter Binary64.isFinite).isSome =
      v.isFinite := by
  cases v with
  | nan => decide +kernel
  | infinite negative => cases negative <;> decide +kernel
  | finite negative units fits =>
    obtain ⟨v, hread, hfinite⟩ := readNumber_fixedChars_finite negative units fits
    rw [hread, Option.filter_some, if_pos hfinite]
    rfl

/-! ## Rounding to two places -/

theorem powInt_coordinatePlaces : Binary64.powInt 10 coordinatePlaces = 100 := by decide +kernel

/-- The whole number that is nearest to a double is a double. -/
theorem fits_round {units : Nat} (h : Fits units) :
    Fits ((2 * units + unitsInOne) / (2 * unitsInOne) * unitsInOne) := by
  have hpos := unitsInOne_pos
  rcases whole_or_small h with ⟨k, rfl⟩ | hsmall
  · have hround : (2 * (unitsInOne * k) + unitsInOne) / (2 * unitsInOne) = k := by
      rw [← Nat.mul_assoc, Nat.mul_add_div (by omega), Nat.div_eq_of_lt (by omega), Nat.add_zero]
    rw [hround, Nat.mul_comm]
    exact h
  · refine fits_whole (Nat.le_of_lt (Nat.div_lt_of_lt_mul ?_))
    omega

theorem round_div_hundred (negative : Bool) {units : Nat} (fits : Fits units) :
    (Binary64.finite negative units fits).round / 100 =
      .ofQuotient (negative != false)
        ((2 * units + unitsInOne) / (2 * unitsInOne) * unitsInOne * unitsInOne)
        (100 * unitsInOne) := by
  have hround : (Binary64.finite negative units fits).round =
      .finite negative _ (fits_round fits) :=
    Binary64.ofQuotient_of_fits negative (fits_round fits)
  rw [hround, Binary64.ofNat_hundred]
  exact if_neg (Nat.ne_of_gt (Nat.mul_pos (by decide) unitsInOne_pos))

theorem isFinite_round_div (negative : Bool) {units : Nat} (fits : Fits units) :
    ((Binary64.finite negative units fits).round / 100).isFinite = true := by
  rw [round_div_hundred]
  refine Binary64.isFinite_ofQuotient (Nat.mul_pos (by decide) unitsInOne_pos) (fits_round fits) ?_
  rw [Nat.mul_comm (100 * unitsInOne), Nat.mul_comm 100, ← Nat.mul_assoc]
  exact Nat.le_mul_of_pos_right _ (by decide)

/-- A number that is rounded to two places is finite if it is when multiplied by a hundred. -/
theorem isFinite_roundTo (v : Binary64) :
    (roundTo coordinatePlaces v).isFinite = (v * 100).isFinite := by
  unfold roundTo
  rw [powInt_coordinatePlaces]
  dsimp only
  generalize v * 100 = product
  cases product with
  | nan => rfl
  | infinite negative => cases negative <;> decide +kernel
  | finite negative units fits =>
    have hfinite := isFinite_round_div negative fits
    split
    · exact Binary64.isFinite_ofNat (by decide)
    · exact hfinite

/-- A coordinate comes back exactly when a hundred times the coordinate is finite. -/
theorem isSome_readBack (v : Binary64) : (readBack v).isSome = (v * 100).isFinite := by
  rw [readBack, coordinateChars, isSome_readNumber_fixedChars, isFinite_roundTo]

/-! ## Coordinates of ordinary size -/

namespace Binary64

/-- A finite number of at most so many units, of either sign. -/
def Within (bound : Nat) : Binary64 → Prop
  | .finite _ units _ => units ≤ bound
  | _ => False

theorem Within.isFinite {bound : Nat} {v : Binary64} (h : v.Within bound) : v.isFinite = true := by
  cases v with
  | finite negative units fits => rfl
  | _ => exact h.elim

theorem within_ofQuotient (negative : Bool) {num den bound : Nat} (hden : 0 < den)
    (hbound : Fits bound) (h : num ≤ den * bound) : (ofQuotient negative num den).Within bound := by
  rw [ofQuotient_eq negative hden hbound h]
  exact nearest_le hden hbound.2 h

theorem le_finite_iff {m n : Bool} {u v : Nat} {hu : Fits u} {hv : Fits v} :
    Binary64.finite m u hu ≤ .finite n v hv ↔ signed m u ≤ signed n v := by
  show (decide (signed m u < signed n v) || decide (signed m u = signed n v)) = true ↔ _
  rw [Bool.or_eq_true, decide_eq_true_eq, decide_eq_true_eq]
  omega

/-- What lies between a number and its opposite is bounded by it. -/
theorem within_of_le {n e : Nat} (hn : n ≤ 2 ^ e) (he : e < 1024) {v : Binary64}
    (hlow : -ofNat n ≤ v) (hhigh : v ≤ ofNat n) : v.Within (2 ^ (e + binaryPlaces)) := by
  have hfits : Fits (2 ^ (e + binaryPlaces)) := fits_two_pow (by omega)
  have hcount : n * unitsInOne ≤ 1 * 2 ^ (e + binaryPlaces) := by
    unfold unitsInOne
    rw [Nat.one_mul, Nat.pow_add]
    exact Nat.mul_le_mul_right _ hn
  have hle : nearest (n * unitsInOne) 1 ≤ 2 ^ (e + binaryPlaces) :=
    nearest_le (by decide) hfits.2 hcount
  have hofNat : ofNat n = .finite false _ (fits_nearest (by decide) hfits hcount) :=
    ofQuotient_eq false (by decide) hfits hcount
  rw [hofNat] at hlow hhigh
  cases v with
  | nan => exact Bool.noConfusion hhigh
  | infinite negative =>
    cases negative with
    | true => exact Bool.noConfusion hlow
    | false => exact Bool.noConfusion hhigh
  | finite negative units fits =>
    have hlow := le_finite_iff.1 hlow
    have hhigh := le_finite_iff.1 hhigh
    show units ≤ 2 ^ (e + binaryPlaces)
    cases negative <;> simp only [signed] at hlow hhigh <;> omega

/-- A number gets no larger when it is divided by one that is at least one. -/
theorem Within.div {bound : Nat} (hbound : Fits bound) {v factor : Binary64} (h : v.Within bound)
    (hfactor : 1 ≤ factor) : (v / factor).Within bound := by
  have hone : (1 : Binary64) = .finite false (1 * unitsInOne) (fits_whole (by decide)) :=
    ofNat_eq (by decide)
  have hpos := unitsInOne_pos
  rw [hone] at hfactor
  cases v with
  | nan => exact h.elim
  | infinite negative => exact h.elim
  | finite negative units fits =>
    cases factor with
    | nan => exact Bool.noConfusion hfactor
    | infinite m => exact Nat.zero_le bound
    | finite m f hf =>
      have hlarge : unitsInOne ≤ f := by
        have hle := le_finite_iff.1 hfactor
        rw [signed_false] at hle
        cases m <;> simp [signed] at hle <;> omega
      show (if f = 0 then _ else ofQuotient (negative != m) (units * unitsInOne) f).Within bound
      rw [if_neg (by omega)]
      refine within_ofQuotient _ (by omega) hbound ?_
      rw [Nat.mul_comm f]
      exact Nat.mul_le_mul h hlarge

theorem Within.mul_hundred {e : Nat} (he : e + 7 < 1024 + binaryPlaces) {v : Binary64}
    (h : v.Within (2 ^ e)) : (v * 100).Within (2 ^ (e + 7)) := by
  rw [ofNat_hundred]
  cases v with
  | nan => exact h.elim
  | infinite negative => exact h.elim
  | finite negative units fits =>
    have hunits : units ≤ 2 ^ e := h
    refine within_ofQuotient _ unitsInOne_pos (fits_two_pow he) ?_
    rw [← Nat.mul_assoc, Nat.mul_comm, Nat.pow_add]
    refine Nat.mul_le_mul_left _ ?_
    omega

/-- Rounding to a whole number and dividing by a hundred takes the factor off again, but for one
    power of two. -/
theorem Within.round_div {e : Nat} (he : e + 7 < 1024 + binaryPlaces) (hone : binaryPlaces ≤ e)
    {v : Binary64} (h : v.Within (2 ^ (e + 7))) : (v.round / 100).Within (2 ^ (e + 1)) := by
  cases v with
  | nan => exact h.elim
  | infinite negative => exact h.elim
  | finite negative units fits =>
    have hunits : units ≤ 2 ^ (e + 7) := h
    have hpower : 2 ^ (e + 7 - binaryPlaces) * unitsInOne = 2 ^ (e + 7) := by
      unfold unitsInOne
      rw [← Nat.pow_add, Nat.sub_add_cancel (by omega)]
    have hwhole : (2 * units + unitsInOne) / (2 * unitsInOne) * unitsInOne ≤ 2 ^ (e + 7) := by
      have hpos := unitsInOne_pos
      have hround :
          (2 * units + unitsInOne) / (2 * unitsInOne) < 2 ^ (e + 7 - binaryPlaces) + 1 := by
        refine Nat.div_lt_of_lt_mul ?_
        rw [Nat.mul_assoc, Nat.mul_add, Nat.mul_comm unitsInOne, hpower]
        omega
      rw [← hpower]
      exact Nat.mul_le_mul_right _ (Nat.le_of_lt_succ hround)
    have hpos : 0 < 100 * unitsInOne := Nat.mul_pos (by decide) unitsInOne_pos
    rw [round_div_hundred]
    refine within_ofQuotient _ hpos (fits_two_pow (by omega)) ?_
    rw [Nat.mul_comm (100 * unitsInOne), ← Nat.mul_assoc]
    refine Nat.mul_le_mul_right _ (Nat.le_trans hwhole ?_)
    rw [Nat.pow_add, Nat.pow_add]
    omega

/-- A number that is rounded to two places grows by less than a power of two. -/
theorem Within.roundTo {e : Nat} (he : e + 7 < 1024 + binaryPlaces) (hone : binaryPlaces ≤ e)
    {v : Binary64} (h : v.Within (2 ^ e)) :
    (roundTo coordinatePlaces v).Within (2 ^ (e + 1)) := by
  have hrounded := (h.mul_hundred he).round_div he hone
  unfold Embroidery.roundTo
  rw [powInt_coordinatePlaces]
  dsimp only
  split
  · rw [Binary64.ofNat_zero]
    exact Nat.zero_le _
  · exact hrounded

end Binary64

/-- With a factor of at least one, coordinates up to 10^300 come back. -/
theorem isFinite_toMachine_mul {factor raw : Binary64} (hfactor : 1 ≤ factor)
    (hlow : -Binary64.ofNat (10 ^ (300 : Nat)) ≤ raw)
    (hhigh : raw ≤ Binary64.ofNat (10 ^ (300 : Nat))) :
    (toMachine factor raw * 100).isFinite = true := by
  have hsize : 10 ^ (300 : Nat) ≤ 2 ^ (1000 : Nat) := by decide +kernel
  have hraw := Binary64.within_of_le hsize (by decide) hlow hhigh
  have hscaled := hraw.div (fits_two_pow (by omega)) hfactor
  have hrounded := hscaled.roundTo (by omega) (by omega)
  exact (hrounded.mul_hundred (by omega)).isFinite

end Embroidery
