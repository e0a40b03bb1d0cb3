/-
  Number words do not depend on the case of their letters.

  The letters of a number word are those of its names and of its exponent mark, and both are read in
  either case; signs, digits and the point have no case (`toLower_eq_iff`).  So the reader answers a
  word and the word in lower case alike (`readNumber_lowered`).

  What holds of a character and its lower case is checked once for every capital: all other
  characters are their own lower case (`toLower_induct`).
-/
import Embroidery.Number.Decimal

namespace Embroidery

/-! ## Letters -/

/-- The letters from A to Z. -/
def capitals : List Char := (List.range 26).map fun i => Char.ofNat (65 + i)

theorem toLower_eq_self_or_mem_capitals (c : Char) : c.toLower = c ∨ c ∈ capitals := by
  unfold Char.toLower
  split
  · next hcapital =>
    right
    have hlow : (65 : Nat) ≤ c.toNat := hcapital.1
    have hhigh : c.toNat ≤ (90 : Nat) := hcapital.2
    refine List.mem_map.2 ⟨c.toNat - 65, List.mem_range.2 (by omega), ?_⟩
    rw [show 65 + (c.toNat - 65) = c.toNat by omega, Char.ofNat_toNat]
  · exact .inl rfl

/-- A test of a character beside its lower case passes if it passes for equal characters and for
    all capitals. -/
theorem toLower_induct (test : Char → Char → Bool) (hself : ∀ c, test c c = true)
    (hcapitals : capitals.all (fun c => test c c.toLower) = true) (c : Char) :
    test c c.toLower = true := by
  rcases toLower_eq_self_or_mem_capitals c with hsame | hcapital
  · rw [hsame]
    exact hself c
  · exact List.all_eq_true.1 hcapitals c hcapital

theorem toLower_toLower (c : Char) : c.toLower.toLower = c.toLower :=
  eq_of_beq (toLower_induct (fun c d => d.toLower == c.toLower) (fun _ => beq_self_eq_true _)
    (by decide) c)

theorem toUpper_toLower (c : Char) : c.toLower.toUpper = c.toUpper :=
  eq_of_beq (toLower_induct (fun c d => d.toUpper == c.toUpper) (fun _ => beq_self_eq_true _)
    (by decide) c)

theorem isAlpha_toLower (c : Char) : c.toLower.isAlpha = c.isAlpha :=
  eq_of_beq (toLower_induct (fun c d => d.isAlpha == c.isAlpha) (fun _ => beq_self_eq_true _)
    (by decide) c)

theorem isDigit_toLower (c : Char) : c.toLower.isDigit = c.isDigit :=
  eq_of_beq (toLower_induct (fun c d => d.isDigit == c.isDigit) (fun _ => beq_self_eq_true _)
    (by decide) c)

theorem toLower_of_not_isAlpha {c : Char} (h : c.isAlpha = false) : c.toLower = c := by
  have hcases := toLower_induct (fun c d => c.isAlpha || d == c)
    (fun c => by rw [beq_self_eq_true, Bool.or_true]) (by decide) c
  rw [h, Bool.false_or] at hcases
  exact eq_of_beq hcases

theorem toLower_of_isDigit {c : Char} (h : c.isDigit = true) : c.toLower = c := by
  have hcases := toLower_induct (fun c d => !c.isDigit || d == c)
    (fun c => by rw [beq_self_eq_true, Bool.or_true]) (by decide) c
  rw [h, Bool.not_true, Bool.false_or] at hcases
  exact eq_of_beq hcases

/-- A character that is no letter is the lower case of itself alone. -/
theorem toLower_eq_iff {c d : Char} (hd : d.isAlpha = false) : c.toLower = d ↔ c = d := by
  constructor
  · intro h
    have hc : c.isAlpha = false := by rw [← isAlpha_toLower, h, hd]
    rw [← toLower_of_not_isAlpha hc, h]
  · rintro rfl
    exact toLower_of_not_isAlpha hd

/-- A text in lower case. -/
def lowered (cs : List Char) : List Char := cs.map Char.toLower

theorem lowered_lowered (cs : List Char) : lowered (lowered cs) = lowered cs := by
  rw [lowered, lowered, List.map_map]
  exact List.map_congr_left fun c _ => toLower_toLower c

/-! ## Runs of digits -/

theorem takeWhile_isDigit_lowered (cs : List Char) :
    (lowered cs).takeWhile Char.isDigit = cs.takeWhile Char.isDigit := by
  induction cs with
  | nil => rfl
  | cons c cs ih =>
    show (c.toLower :: lowered cs).takeWhile Char.isDigit = _
    rw [List.takeWhile_cons, List.takeWhile_cons, isDigit_toLower, ih]
    split
    · next hdigit => rw [toLower_of_isDigit hdigit]
    · rfl

theorem dropWhile_isDigit_lowered (cs : List Char) :
    (lowered cs).dropWhile Char.isDigit = lowered (cs.dropWhile Char.isDigit) := by
  induction cs with
  | nil => rfl
  | cons c cs ih =>
    show (c.toLower :: lowered cs).dropWhile Char.isDigit = _
    rw [List.dropWhile_cons, List.dropWhile_cons, isDigit_toLower, ih]
    split
    · rfl
    · rfl

theorem all_isDigit_lowered (cs : List Char) :
    (lowered cs).all Char.isDigit = cs.all Char.isDigit := by
  rw [lowered, List.all_map]
  exact congrArg cs.all (funext isDigit_toLower)

theorem lowered_of_all_isDigit {cs : List Char} (h : cs.all Char.isDigit = true) :
    lowered cs = cs :=
  (List.map_congr_left fun c hc => toLower_of_isDigit (List.all_eq_true.1 h c hc)).trans
    (List.map_id cs)

/-! ## Number words -/

theorem takeSign_of_ne {c : Char} {rest : List Char} (hminus : c ≠ '-') (hplus : c ≠ '+') :
    takeSign (c :: rest) = (false, c :: rest) := by
  unfold takeSign
  split
  · next heq => exact absurd (List.cons.inj heq).1 hminus
  · next heq => exact absurd (List.cons.inj heq).1 hplus
  · rfl

theorem takeSign_lowered (cs : List Char) :
    takeSign (lowered cs) = ((takeSign cs).1, lowered (takeSign cs).2) := by
  cases cs with
  | nil => rfl
  | cons c rest =>
    by_cases hminus : c = '-'
    · subst hminus
      rfl
    by_cases hplus : c = '+'
    · subst hplus
      rfl
    have hminus' : c.toLower ≠ '-' := fun h => hminus ((toLower_eq_iff (by decide)).1 h)
    have hplus' : c.toLower ≠ '+' := fun h => hplus ((toLower_eq_iff (by decide)).1 h)
    rw [takeSign_of_ne hminus hplus]
    exact takeSign_of_ne hminus' hplus'

/-- The mark of an exponent is read in either case. -/
theorem isExponentMark_toLower (c : Char) :
    (c.toLower = 'e' || c.toLower = 'E') = (c = 'e' || c = 'E') :=
  eq_of_beq (toLower_induct
    (fun c d => (decide (d = 'e') || decide (d = 'E')) == (decide (c = 'e') || decide (c = 'E')))
    (fun _ => beq_self_eq_true _) (by decide) c)

theorem readExponent_lowered (cs : List Char) : readExponent (lowered cs) = readExponent cs := by
  cases cs with
  | nil => rfl
  | cons c rest =>
    have hempty : (lowered (takeSign rest).2).isEmpty = (takeSign rest).2.isEmpty :=
      List.isEmpty_map
    show readExponent (c.toLower :: lowered rest) = _
    rw [readExponent, readExponent, takeSign_lowered]
    dsimp only
    rw [isExponentMark_toLower, all_isDigit_lowered, hempty]
    split
    · next h =>
      have hdigits : (takeSign rest).2.all Char.isDigit = true := (Bool.and_eq_true_iff.1 h).2
      rw [lowered_of_all_isDigit hdigits]
    · rfl

/-- A point is not changed, and what stands behind it is lowered. -/
theorem readUnsigned_lowered (negative : Bool) (cs : List Char) :
    readUnsigned negative (lowered cs) = readUnsigned negative cs := by
  unfold readUnsigned
  rw [takeWhile_isDigit_lowered, dropWhile_isDigit_lowered]
  cases cs.dropWhile Char.isDigit with
  | nil => rfl
  | cons c rest =>
    by_cases hpoint : c = '.'
    · subst hpoint
      have hcons : lowered ('.' :: rest) = '.' :: lowered rest := rfl
      simp only [hcons, takeWhile_isDigit_lowered, dropWhile_isDigit_lowered, readExponent_lowered]
    · have hpoint' : c.toLower ≠ '.' := fun h => hpoint ((toLower_eq_iff (by decide)).1 h)
      have hcons : lowered (c :: rest) = c.toLower :: lowered rest := rfl
      have hexponent := readExponent_lowered (c :: rest)
      rw [hcons] at hexponent ⊢
      simp [hpoint, hpoint', hexponent]

/-- A number word and the word in lower case are read alike. -/
theorem readNumber_lowered (cs : List Char) : readNumber (lowered cs) = readNumber cs := by
  unfold readNumber
  rw [takeSign_lowered]
  dsimp only
  rw [← lowered, ← lowered, lowered_lowered, readUnsigned_lowered]

end Embroidery
