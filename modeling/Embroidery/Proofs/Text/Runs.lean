/-
  Runs of characters at the start of a text, and numbers among them.

  A reader takes the longest run of characters of one kind.  It takes no more with another text
  behind, if that text starts with a character of another kind (`StopsAt`).

  The digits of a natural number do not start with a zero, but for zero itself.
-/
import Embroidery.Proofs.Number.Whole

namespace Embroidery

/-! ## Runs -/

/-- The text does not start with a character of a kind. -/
def StopsAt (test : Char → Bool) (rest : List Char) : Prop := ∀ c ∈ rest.head?, test c = false

variable {test : Char → Bool} {cs rest : List Char}

theorem StopsAt.nil : StopsAt test [] := fun _ h => (nomatch h)

theorem StopsAt.cons {c : Char} (h : test c = false) : StopsAt test (c :: cs) := by
  intro d hd
  rw [← Option.some.inj hd]
  exact h

/-- A kind that is contained in another. -/
theorem StopsAt.mono {wider : Char → Bool} (h : StopsAt wider rest)
    (hsub : ∀ c, test c = true → wider c = true) : StopsAt test rest := by
  intro c hc
  cases htest : test c with
  | false => rfl
  | true => exact absurd (hsub c htest) (by rw [h c hc]; exact Bool.false_ne_true)

theorem StopsAt.takeWhile (h : StopsAt test rest) (cs : List Char) :
    (cs ++ rest).takeWhile test = cs.takeWhile test := by
  induction cs with
  | nil =>
    cases rest with
    | nil => rfl
    | cons c rest => exact List.takeWhile_cons_of_neg (by rw [h c rfl]; exact Bool.false_ne_true)
  | cons c cs ih => rw [List.cons_append, List.takeWhile_cons, List.takeWhile_cons, ih]

theorem StopsAt.dropWhile (h : StopsAt test rest) (cs : List Char) :
    (cs ++ rest).dropWhile test = cs.dropWhile test ++ rest := by
  induction cs with
  | nil =>
    cases rest with
    | nil => rfl
    | cons c rest => exact List.dropWhile_cons_of_neg (by rw [h c rfl]; exact Bool.false_ne_true)
  | cons c cs ih =>
    rw [List.cons_append, List.dropWhile_cons, List.dropWhile_cons, ih]
    split <;> rfl

theorem takeWhile_eq_self (h : ∀ c ∈ cs, test c = true) : cs.takeWhile test = cs := by
  simpa using @List.takeWhile_append_of_pos _ _ cs [] h

theorem dropWhile_eq_nil (h : ∀ c ∈ cs, test c = true) : cs.dropWhile test = [] := by
  simpa using @List.dropWhile_append_of_pos _ _ cs [] h

/-- A run with a text behind that stops it. -/
theorem StopsAt.takeWhile_run (h : StopsAt test rest) (hcs : ∀ c ∈ cs, test c = true) :
    (cs ++ rest).takeWhile test = cs := by
  rw [h.takeWhile, takeWhile_eq_self hcs]

theorem StopsAt.dropWhile_run (h : StopsAt test rest) (hcs : ∀ c ∈ cs, test c = true) :
    (cs ++ rest).dropWhile test = rest := by
  rw [h.dropWhile, dropWhile_eq_nil hcs, List.nil_append]

/-! ## Digits of natural numbers -/

theorem head?_naturalChars {n : Nat} (h : n ≠ 0) : (naturalChars n).head? ≠ some '0' := by
  by_cases hsmall : n < 10
  · have hdigits : ∀ d, d < 10 → d ≠ 0 → (naturalChars d).head? ≠ some '0' := by decide
    exact hdigits n hsmall h
  · have hshorter : n / 10 < n := Nat.div_lt_self (by omega) (by decide)
    have hquotient : n / 10 ≠ 0 := by omega
    have hne := naturalChars_ne_nil (n / 10)
    rw [naturalChars, Nat.toDigits_of_base_le (by decide) (by omega)]
    cases hhead : Nat.toDigits 10 (n / 10) with
    | nil => exact absurd hhead hne
    | cons d ds =>
      have ih := head?_naturalChars hquotient
      rw [naturalChars, hhead] at ih
      exact ih
termination_by n
decreasing_by exact hshorter

end Embroidery
