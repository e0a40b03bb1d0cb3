/-
  Text from bytes, cut before or after it is read.

  A step of `scan` takes one first byte and the bytes behind it that pass the tests for its
  character (`scan_cons`); what was taken is a character if all tests were passed, else a malformed
  part.  A byte below 0x80 passes no test, so it ends whatever is running and always stands for
  itself.  Hence reading can be cut at such a byte (`scan_append`), and such a byte shows up in the
  text exactly where it is in the file (`not_mem_lossyChars`).

  So it is the same to cut bytes at line feeds and to read the pieces, or to read the bytes and to
  cut the text (`cutLines_lossyChars`), and the same for a carriage return at the end of a line
  (`dropLastIf_lossyChars`).  The bytes that a text is encoded in are read as that text
  (`lossyText_toUTF8`).
-/
import Embroidery.Text.Utf8
import Embroidery.Proofs.Text.Lines

namespace Embroidery

/-! ## One step of reading -/

/-- The tests that the bytes behind a first byte have to pass, one after the other, for the
    character to be whole. -/
def laterTests (a : UInt8) : List (UInt8 → Bool) :=
  if 0xC2 ≤ a && a ≤ 0xDF then [isContinuation]
  else if 0xE0 ≤ a && a ≤ 0xEF then [secondOfThree a, isContinuation]
  else if 0xF0 ≤ a && a ≤ 0xF4 then [secondOfFour a, isContinuation, isContinuation]
  else []

/-- The bytes that pass tests one after the other, and what follows them. -/
def takePassing : List (UInt8 → Bool) → List UInt8 → List UInt8 × List UInt8
  | test :: tests, b :: rest =>
    if test b then (b :: (takePassing tests rest).1, (takePassing tests rest).2)
    else ([], b :: rest)
  | _, bytes => ([], bytes)

/-- What the first byte of a longer character stands for. -/
def leadValue (a : UInt8) : Nat :=
  if a ≤ 0xDF then a.toNat - 0xC0 else if a ≤ 0xEF then a.toNat - 0xE0 else a.toNat - 0xF0

/-- The character that a first byte makes with the bytes taken behind it, if it is whole. -/
def firstChar (a : UInt8) (taken : List UInt8) : Option Char :=
  if a < 0x80 then some (Char.ofNat a.toNat)
  else if !(laterTests a).isEmpty && taken.length == (laterTests a).length then
    some (assemble (leadValue a) taken)
  else none

theorem laterTests_of_ascii {a : UInt8} (h : a < 0x80) : laterTests a = [] := by
  unfold laterTests
  rw [if_neg (by grind), if_neg (by grind), if_neg (by grind)]

/-- The step of reading: the cases are those of the first byte, and behind it of each test. -/
theorem scan_cons (a : UInt8) (rest : List UInt8) :
    scan (a :: rest) = firstChar a (takePassing (laterTests a) rest).1 ::
      scan (takePassing (laterTests a) rest).2 := by
  rw [scan.eq_def]
  dsimp only
  split
  · next h =>
    rw [laterTests_of_ascii h, firstChar, if_pos h]
    cases rest <;> rfl
  next hascii =>
    unfold firstChar
    rw [if_neg hascii]
    unfold laterTests leadValue
    split
    · next h =>
      have htwo : a ≤ 0xDF := by grind
      cases rest with
      | nil => rfl
      | cons b rest =>
        simp only [takePassing, if_pos htwo]
        split
        · cases rest <;> rfl
        · rfl
    next =>
    split
    · next h =>
      have htwo : ¬a ≤ 0xDF := by grind
      have hthree : a ≤ 0xEF := by grind
      cases rest with
      | nil => rfl
      | cons b rest =>
        simp only [takePassing, if_neg htwo, if_pos hthree]
        split
        · cases rest with
          | nil => rfl
          | cons c rest =>
            simp only [takePassing]
            split
            · cases rest <;> rfl
            · rfl
        · rfl
    next =>
    split
    · next h =>
      have htwo : ¬a ≤ 0xDF := by grind
      have hthree : ¬a ≤ 0xEF := by grind
      cases rest with
      | nil => rfl
      | cons b rest =>
        simp only [takePassing, if_neg htwo, if_neg hthree]
        split
        · cases rest with
          | nil => rfl
          | cons c rest =>
            simp only [takePassing]
            split
            · cases rest with
              | nil => rfl
              | cons d rest =>
                simp only [takePassing]
                split
                · cases rest <;> rfl
                · rfl
            · rfl
        · rfl
    · cases rest <;> rfl

theorem takePassing_none (bytes : List UInt8) : takePassing [] bytes = ([], bytes) := by
  cases bytes <;> rfl

theorem takePassing_append_eq (tests : List (UInt8 → Bool)) (bytes : List UInt8) :
    (takePassing tests bytes).1 ++ (takePassing tests bytes).2 = bytes := by
  induction tests generalizing bytes with
  | nil => rfl
  | cons test tests ih =>
    cases bytes with
    | nil => rfl
    | cons b rest =>
      rw [takePassing]
      split
      · exact congrArg (b :: ·) (ih rest)
      · rfl

/-- What follows the bytes that are taken is an end of the bytes, and not a longer one. -/
theorem length_takePassing_le (tests : List (UInt8 → Bool)) (bytes : List UInt8) :
    (takePassing tests bytes).2.length ≤ bytes.length := by
  have h := congrArg List.length (takePassing_append_eq tests bytes)
  rw [List.length_append] at h
  omega

/-! ## Bytes below 0x80 -/

/-- A byte below 0x80 passes no test. -/
theorem laterTests_ascii {b : UInt8} (hb : b < 0x80) (a : UInt8) :
    ∀ test ∈ laterTests a, test b = false := by
  have hcontinuation : isContinuation b = false := by
    unfold isContinuation
    grind
  have hthree : secondOfThree a b = false := by
    unfold secondOfThree
    grind
  have hfour : secondOfFour a b = false := by
    unfold secondOfFour
    grind
  unfold laterTests
  split
  · exact List.forall_mem_singleton.2 hcontinuation
  · split
    · exact List.forall_mem_cons.2 ⟨hthree, List.forall_mem_singleton.2 hcontinuation⟩
    · split
      · exact List.forall_mem_cons.2 ⟨hfour, List.forall_mem_cons.2 ⟨hcontinuation,
          List.forall_mem_singleton.2 hcontinuation⟩⟩
      · exact List.forall_mem_nil _

/-- A byte that passes no test ends what is taken. -/
theorem takePassing_append {tests : List (UInt8 → Bool)} {b : UInt8}
    (hb : ∀ test ∈ tests, test b = false) (before after : List UInt8) :
    takePassing tests (before ++ b :: after) =
      ((takePassing tests before).1, (takePassing tests before).2 ++ b :: after) := by
  induction tests generalizing before with
  | nil => rfl
  | cons test tests ih =>
    obtain ⟨htest, htests⟩ := List.forall_mem_cons.1 hb
    cases before with
    | nil =>
      show takePassing (test :: tests) (b :: after) = ([], b :: after)
      rw [takePassing, htest, if_neg Bool.false_ne_true]
    | cons c before =>
      show takePassing (test :: tests) (c :: (before ++ b :: after)) = _
      rw [takePassing, takePassing, ih htests]
      split <;> rfl

/-- Reading can be cut in front of a byte below 0x80. -/
theorem scan_append {b : UInt8} (hb : b < 0x80) (before after : List UInt8) :
    scan (before ++ b :: after) = scan before ++ scan (b :: after) := by
  match before with
  | [] => rfl
  | a :: before =>
    have hcut := takePassing_append (laterTests_ascii hb a) before after
    have hshorter := length_takePassing_le (laterTests a) before
    rw [List.cons_append, scan_cons, hcut, scan_append hb, scan_cons a before]
    rfl
termination_by before.length
decreasing_by exact Nat.lt_succ_of_le hshorter

theorem lossyChars_nil : lossyChars [] = [] := by
  rw [lossyChars, scan]
  rfl

theorem lossyChars_cons (a : UInt8) (rest : List UInt8) :
    lossyChars (a :: rest) = (firstChar a (takePassing (laterTests a) rest).1).getD '\uFFFD' ::
      lossyChars (takePassing (laterTests a) rest).2 := by
  rw [lossyChars, scan_cons]
  rfl

/-- A byte below 0x80 stands for itself, wherever it is. -/
theorem lossyChars_append {b : UInt8} (hb : b < 0x80) (before after : List UInt8) :
    lossyChars (before ++ b :: after) =
      lossyChars before ++ Char.ofNat b.toNat :: lossyChars after := by
  have hself : scan (b :: after) = some (Char.ofNat b.toNat) :: scan after := by
    rw [scan_cons, laterTests_of_ascii hb, firstChar, if_pos hb]
    cases after <;> rfl
  rw [lossyChars, scan_append hb, hself, List.map_append]
  rfl

/-- Only the empty list of bytes is read as the empty text. -/
theorem lossyChars_eq_nil_iff {bytes : List UInt8} : lossyChars bytes = [] ↔ bytes = [] := by
  cases bytes with
  | nil => exact ⟨fun _ => rfl, fun _ => lossyChars_nil⟩
  | cons a rest =>
    rw [lossyChars_cons]
    exact ⟨fun h => (nomatch h), fun h => (nomatch h)⟩

/-! ## Longer characters -/

theorem isContinuation_iff {b : UInt8} :
    isContinuation b = true ↔ 128 ≤ b.toNat ∧ b.toNat ≤ 191 := by
  rw [isContinuation, Bool.and_eq_true, decide_eq_true_eq, decide_eq_true_eq,
    UInt8.le_iff_toNat_le, UInt8.le_iff_toNat_le]
  rfl

theorem secondOfThree_iff {a b : UInt8} :
    secondOfThree a b = true ↔ (128 ≤ b.toNat ∧ b.toNat ≤ 191) ∧
      (a.toNat = 0xE0 → 160 ≤ b.toNat) ∧ (a.toNat = 0xED → b.toNat ≤ 159) := by
  unfold secondOfThree
  split
  · next h =>
    subst h
    simp only [Bool.and_eq_true, decide_eq_true_eq, UInt8.le_iff_toNat_le, UInt8.reduceToNat]
    grind
  next h =>
  have hfirst : a.toNat ≠ 0xE0 := fun heq => h (UInt8.toNat_inj.1 heq)
  split
  · next h =>
    subst h
    simp only [Bool.and_eq_true, decide_eq_true_eq, UInt8.le_iff_toNat_le, UInt8.reduceToNat]
    grind
  · next h =>
    have hlater : a.toNat ≠ 0xED := fun heq => h (UInt8.toNat_inj.1 heq)
    rw [isContinuation_iff]
    omega

theorem secondOfFour_iff {a b : UInt8} :
    secondOfFour a b = true ↔ (128 ≤ b.toNat ∧ b.toNat ≤ 191) ∧
      (a.toNat = 0xF0 → 144 ≤ b.toNat) ∧ (a.toNat = 0xF4 → b.toNat ≤ 143) := by
  unfold secondOfFour
  split
  · next h =>
    subst h
    simp only [Bool.and_eq_true, decide_eq_true_eq, UInt8.le_iff_toNat_le, UInt8.reduceToNat]
    grind
  next h =>
  have hfirst : a.toNat ≠ 0xF0 := fun heq => h (UInt8.toNat_inj.1 heq)
  split
  · next h =>
    subst h
    simp only [Bool.and_eq_true, decide_eq_true_eq, UInt8.le_iff_toNat_le, UInt8.reduceToNat]
    grind
  · next h =>
    have hlater : a.toNat ≠ 0xF4 := fun heq => h (UInt8.toNat_inj.1 heq)
    rw [isContinuation_iff]
    omega

/-- The first bytes of characters of two bytes. -/
theorem lead_of_two {a : UInt8} (h : 0xC2 ≤ a.toNat ∧ a.toNat ≤ 0xDF) :
    laterTests a = [isContinuation] ∧ leadValue a = a.toNat - 0xC0 := by
  unfold laterTests leadValue
  simp only [Bool.and_eq_true, decide_eq_true_eq, UInt8.le_iff_toNat_le, UInt8.reduceToNat]
  rw [if_pos h, if_pos h.2]
  exact ⟨rfl, rfl⟩

/-- The first bytes of characters of three bytes. -/
theorem lead_of_three {a : UInt8} (h : 0xE0 ≤ a.toNat ∧ a.toNat ≤ 0xEF) :
    laterTests a = [secondOfThree a, isContinuation] ∧ leadValue a = a.toNat - 0xE0 := by
  unfold laterTests leadValue
  simp only [Bool.and_eq_true, decide_eq_true_eq, UInt8.le_iff_toNat_le, UInt8.reduceToNat]
  rw [if_neg (by omega), if_pos h, if_neg (by omega), if_pos h.2]
  exact ⟨rfl, rfl⟩

/-- The first bytes of characters of four bytes. -/
theorem lead_of_four {a : UInt8} (h : 0xF0 ≤ a.toNat ∧ a.toNat ≤ 0xF4) :
    laterTests a = [secondOfFour a, isContinuation, isContinuation] ∧
      leadValue a = a.toNat - 0xF0 := by
  unfold laterTests leadValue
  simp only [Bool.and_eq_true, decide_eq_true_eq, UInt8.le_iff_toNat_le, UInt8.reduceToNat]
  rw [if_neg (by omega), if_neg (by omega), if_pos h, if_neg (by omega), if_neg (by omega)]
  exact ⟨rfl, rfl⟩

/-- The first bytes with tests are those of longer characters. -/
theorem range_of_laterTests {a : UInt8} (h : laterTests a ≠ []) :
    (0xC2 ≤ a.toNat ∧ a.toNat ≤ 0xDF) ∨ (0xE0 ≤ a.toNat ∧ a.toNat ≤ 0xEF) ∨
      (0xF0 ≤ a.toNat ∧ a.toNat ≤ 0xF4) := by
  unfold laterTests at h
  simp only [Bool.and_eq_true, decide_eq_true_eq, UInt8.le_iff_toNat_le, UInt8.reduceToNat] at h
  split at h
  · next htwo => exact .inl htwo
  · split at h
    · next hthree => exact .inr (.inl hthree)
    · split at h
      · next hfour => exact .inr (.inr hfour)
      · exact absurd rfl h

/-- If all tests were passed, so was the first, and the others behind it. -/
theorem of_takePassing_cons {test : UInt8 → Bool} {tests : List (UInt8 → Bool)}
    {bytes : List UInt8}
    (h : (takePassing (test :: tests) bytes).1.length = (test :: tests).length) :
    ∃ b rest, test b = true ∧
      (takePassing (test :: tests) bytes).1 = b :: (takePassing tests rest).1 ∧
      (takePassing tests rest).1.length = tests.length := by
  cases bytes with
  | nil => exact nomatch h
  | cons b rest =>
    rw [takePassing] at h ⊢
    split at h
    · next htest =>
      rw [if_pos htest]
      exact ⟨b, rest, htest, rfl, Nat.succ.inj h⟩
    · exact nomatch h

/-- The number of a longer character is at least 0x80.  Behind 0xE0 and 0xF0 it is the range of the
    second byte that sees to it. -/
theorem le_of_assemble {a : UInt8} {bytes : List UInt8} (hne : laterTests a ≠ [])
    (hall : (takePassing (laterTests a) bytes).1.length = (laterTests a).length) :
    ∃ n, 128 ≤ n ∧
      assemble (leadValue a) (takePassing (laterTests a) bytes).1 = Char.ofNat n := by
  refine ⟨_, ?_, rfl⟩
  rcases range_of_laterTests hne with hrange | hrange | hrange
  · obtain ⟨htests, hvalue⟩ := lead_of_two hrange
    rw [htests] at hall
    obtain ⟨b, rest, hb, htaken, -⟩ := of_takePassing_cons hall
    rw [isContinuation_iff] at hb
    rw [htests, hvalue, htaken, takePassing_none]
    simp only [List.foldl_cons, List.foldl_nil]
    omega
  · obtain ⟨htests, hvalue⟩ := lead_of_three hrange
    rw [htests] at hall
    obtain ⟨b, rest, hb, htaken, hall⟩ := of_takePassing_cons hall
    obtain ⟨c, rest', hc, htaken', -⟩ := of_takePassing_cons hall
    rw [secondOfThree_iff] at hb
    rw [isContinuation_iff] at hc
    rw [htests, hvalue, htaken, htaken', takePassing_none]
    simp only [List.foldl_cons, List.foldl_nil]
    omega
  · obtain ⟨htests, hvalue⟩ := lead_of_four hrange
    rw [htests] at hall
    obtain ⟨b, rest, hb, htaken, hall⟩ := of_takePassing_cons hall
    obtain ⟨c, rest', hc, htaken', hall⟩ := of_takePassing_cons hall
    obtain ⟨d, rest'', hd, htaken'', -⟩ := of_takePassing_cons hall
    rw [secondOfFour_iff] at hb
    rw [isContinuation_iff] at hc hd
    rw [htests, hvalue, htaken, htaken', htaken'', takePassing_none]
    simp only [List.foldl_cons, List.foldl_nil]
    omega

/-- The code of a character by number; a number that is none of a character gives zero. -/
theorem toNat_charOfNat (n : Nat) :
    (Char.ofNat n).toNat = if n.isValidChar then n else 0 := by
  by_cases h : n.isValidChar
  · rw [if_pos h, Char.ofNat, dif_pos h]
    rfl
  · rw [if_neg h, Char.ofNat, dif_neg h]
    rfl

theorem toNat_charOfNat_byte {b : UInt8} (hb : b < 0x80) :
    (Char.ofNat b.toNat).toNat = b.toNat := by
  have hsmall : b.toNat < 128 := UInt8.lt_iff_toNat_lt.1 hb
  rw [toNat_charOfNat, if_pos (.inl (by omega))]

/-- A number of at least 0x80 is not that of a character below, but for zero, which stands for
    numbers that are none of a character. -/
theorem ofNat_ne_ascii {n : Nat} (hn : 128 ≤ n) {b : UInt8} (hb : b < 0x80) (hzero : b ≠ 0) :
    Char.ofNat n ≠ Char.ofNat b.toNat := by
  intro h
  have hsmall : b.toNat < 128 := UInt8.lt_iff_toNat_lt.1 hb
  have hpos : b.toNat ≠ 0 := fun heq => hzero (UInt8.toNat_inj.1 heq)
  have hcode := congrArg Char.toNat h
  rw [toNat_charOfNat, toNat_charOfNat_byte hb] at hcode
  split at hcode <;> omega

/-- A first byte makes the character of a byte below 0x80 only if it is that byte. -/
theorem eq_of_firstChar {a : UInt8} {bytes : List UInt8} {b : UInt8} (hb : b < 0x80)
    (hzero : b ≠ 0)
    (h : (firstChar a (takePassing (laterTests a) bytes).1).getD '\uFFFD' = Char.ofNat b.toNat) :
    a = b := by
  unfold firstChar at h
  split at h
  · next ha =>
    have hcode := congrArg Char.toNat (show Char.ofNat a.toNat = Char.ofNat b.toNat from h)
    rw [toNat_charOfNat_byte ha, toNat_charOfNat_byte hb] at hcode
    exact UInt8.toNat_inj.1 hcode
  · split at h
    · next hwhole =>
      obtain ⟨hne, hall⟩ := Bool.and_eq_true_iff.1 hwhole
      rw [Bool.not_eq_true', List.isEmpty_eq_false_iff] at hne
      obtain ⟨n, hn, hassemble⟩ := le_of_assemble hne (eq_of_beq hall)
      rw [Option.getD_some, hassemble] at h
      exact absurd h (ofNat_ne_ascii hn hb hzero)
    · exact absurd h (ofNat_ne_ascii (n := 0xFFFD) (by decide) hb hzero)

/-- A byte below 0x80 that is not in the file is not in its text. -/
theorem not_mem_lossyChars {b : UInt8} (hb : b < 0x80) (hzero : b ≠ 0) {bytes : List UInt8}
    (h : b ∉ bytes) : Char.ofNat b.toNat ∉ lossyChars bytes := by
  match bytes with
  | [] =>
    rw [lossyChars_nil]
    exact List.not_mem_nil
  | a :: rest =>
    have hshorter := length_takePassing_le (laterTests a) rest
    have hleft : b ∉ (takePassing (laterTests a) rest).2 := by
      intro hmem
      refine h (List.mem_cons_of_mem a ?_)
      rw [← takePassing_append_eq (laterTests a) rest]
      exact List.mem_append_right _ hmem
    rw [lossyChars_cons]
    intro hmem
    rcases List.mem_cons.1 hmem with heq | hmem
    · rw [eq_of_firstChar hb hzero heq.symm] at h
      exact h List.mem_cons_self
    · exact not_mem_lossyChars hb hzero hleft hmem
termination_by bytes.length
decreasing_by exact Nat.lt_succ_of_le hshorter

/-! ## Lines -/

/-- It is the same to cut bytes at line feeds and to read the pieces, or to cut the text. -/
theorem cutLines_lossyChars (bytes : List UInt8) :
    cutLines (· == '\n') (lossyChars bytes) =
      (cutLines (· == 0x0A) bytes).map fun piece => (lossyChars piece.1, piece.2) := by
  by_cases hmem : (0x0A : UInt8) ∈ bytes
  · obtain ⟨line, rest, hbytes, hline⟩ := List.eq_append_cons_of_mem hmem
    have htext : ('\n' : Char) ∉ lossyChars line :=
      not_mem_lossyChars (b := 0x0A) (by decide) (by decide) hline
    have hshorter : rest.length < bytes.length := by
      rw [hbytes, List.length_append, List.length_cons]
      omega
    rw [hbytes, lossyChars_append (by decide)]
    show cutLines _ (lossyChars line ++ '\n' :: lossyChars rest) = _
    rw [cutLines_line htext, cutLines_lossyChars rest,
      cutLines_ended (beq_of_not_mem hline) rfl]
    rfl
  · have htext : ('\n' : Char) ∉ lossyChars bytes :=
      not_mem_lossyChars (b := 0x0A) (by decide) (by decide) hmem
    by_cases hempty : bytes = []
    · rw [hempty, lossyChars_nil]
      rfl
    · rw [cutLines_unended (beq_of_not_mem htext)
          (fun h => hempty (lossyChars_eq_nil_iff.1 h)),
        cutLines_unended (beq_of_not_mem hmem) hempty]
      rfl
termination_by bytes.length
decreasing_by exact hshorter

/-- A carriage return ends the text only if its byte ends the file. -/
theorem getLast?_of_lossyChars {bytes : List UInt8}
    (h : (lossyChars bytes).getLast? = some '\r') : bytes.getLast? = some 0x0D := by
  match bytes with
  | [] =>
    rw [lossyChars_nil] at h
    exact nomatch h
  | a :: rest =>
    have hshorter := length_takePassing_le (laterTests a) rest
    have hrest := takePassing_append_eq (laterTests a) rest
    rw [lossyChars_cons, List.getLast?_cons] at h
    by_cases hleft : (takePassing (laterTests a) rest).2 = []
    · -- the last step takes all that is left, and a carriage return takes nothing but itself
      rw [hleft, lossyChars_nil] at h
      have ha := eq_of_firstChar (b := 0x0D) (by decide) (by decide) (Option.some.inj h)
      rw [hleft, List.append_nil, ha, laterTests_of_ascii (by decide), takePassing_none] at hrest
      rw [ha, ← hrest]
      rfl
    · have hne : lossyChars (takePassing (laterTests a) rest).2 ≠ [] := by
        intro heq
        exact hleft (lossyChars_eq_nil_iff.1 heq)
      rw [List.getLast?_eq_some_getLast hne, Option.getD_some] at h
      have hlast := getLast?_of_lossyChars
        ((List.getLast?_eq_some_getLast hne).trans h)
      rw [← hrest, List.getLast?_cons, List.getLast?_append, hlast]
      rfl
termination_by bytes.length
decreasing_by exact Nat.lt_succ_of_le hshorter

/-- It is the same to drop a carriage return at the end of a line before it is read or after. -/
theorem dropLastIf_lossyChars (bytes : List UInt8) :
    dropLastIf (· == '\r') (lossyChars bytes) = lossyChars (dropLastIf (· == 0x0D) bytes) := by
  by_cases hlast : bytes.getLast? = some 0x0D
  · obtain ⟨before, rfl⟩ := List.getLast?_eq_some_iff.1 hlast
    have htext : lossyChars (before ++ [0x0D]) = lossyChars before ++ ['\r'] := by
      rw [lossyChars_append (by decide), lossyChars_nil]
      rfl
    rw [htext, dropLastIf_mark rfl, dropLastIf_mark rfl]
  · rw [dropLastIf_of_ne fun h => hlast (getLast?_of_lossyChars h), dropLastIf_of_ne hlast]

/-! ## Encoded text -/

theorem takePassing_pass {test : UInt8 → Bool} {b : UInt8} (h : test b = true)
    (tests : List (UInt8 → Bool)) (rest : List UInt8) :
    takePassing (test :: tests) (b :: rest) =
      (b :: (takePassing tests rest).1, (takePassing tests rest).2) :=
  if_pos h

/-- A whole character of several bytes. -/
theorem scan_whole {a : UInt8} {tests : List (UInt8 → Bool)} {value : Nat}
    (hlead : laterTests a = tests ∧ leadValue a = value) (hne : tests ≠ [])
    {bytes taken rest : List UInt8} (htaken : takePassing tests bytes = (taken, rest))
    (hall : taken.length = tests.length) :
    scan (a :: bytes) = some (assemble value taken) :: scan rest := by
  obtain ⟨rfl, rfl⟩ := hlead
  have hlarge : ¬a < 0x80 := by
    intro ha
    exact hne (laterTests_of_ascii ha)
  have hwhole : (!(laterTests a).isEmpty && taken.length == (laterTests a).length) = true := by
    rw [hall, beq_self_eq_true, Bool.and_true, Bool.not_eq_true', List.isEmpty_eq_false_iff]
    exact hne
  rw [scan_cons, htaken, firstChar, if_neg hlarge, if_pos hwhole]

theorem scan_two {a b : UInt8} (ha : 0xC2 ≤ a.toNat ∧ a.toNat ≤ 0xDF)
    (hb : isContinuation b = true) (rest : List UInt8) :
    scan (a :: b :: rest) = some (assemble (a.toNat - 0xC0) [b]) :: scan rest := by
  have htaken : takePassing [isContinuation] (b :: rest) = ([b], rest) := by
    rw [takePassing_pass hb, takePassing_none]
  exact scan_whole (lead_of_two ha) (fun h => nomatch h) htaken rfl

theorem scan_three {a b c : UInt8} (ha : 0xE0 ≤ a.toNat ∧ a.toNat ≤ 0xEF)
    (hb : secondOfThree a b = true) (hc : isContinuation c = true) (rest : List UInt8) :
    scan (a :: b :: c :: rest) = some (assemble (a.toNat - 0xE0) [b, c]) :: scan rest := by
  have htaken :
      takePassing [secondOfThree a, isContinuation] (b :: c :: rest) = ([b, c], rest) := by
    rw [takePassing_pass hb, takePassing_pass hc, takePassing_none]
  exact scan_whole (lead_of_three ha) (fun h => nomatch h) htaken rfl

theorem scan_four {a b c d : UInt8} (ha : 0xF0 ≤ a.toNat ∧ a.toNat ≤ 0xF4)
    (hb : secondOfFour a b = true) (hc : isContinuation c = true) (hd : isContinuation d = true)
    (rest : List UInt8) :
    scan (a :: b :: c :: d :: rest) = some (assemble (a.toNat - 0xF0) [b, c, d]) :: scan rest := by
  have htaken : takePassing [secondOfFour a, isContinuation, isContinuation] (b :: c :: d :: rest) =
      ([b, c, d], rest) := by
    rw [takePassing_pass hb, takePassing_pass hc, takePassing_pass hd, takePassing_none]
  exact scan_whole (lead_of_four ha) (fun h => nomatch h) htaken rfl

/-- The bytes of a character are read as the character.  The second byte of three is in its range
    since no character is a surrogate, and that of four since none is beyond 0x10FFFF. -/
theorem scan_utf8EncodeChar (c : Char) (rest : List UInt8) :
    scan (String.utf8EncodeChar c ++ rest) = some c :: scan rest := by
  have hvalid : c.val.toNat < 0xD800 ∨ 0xDFFF < c.val.toNat ∧ c.val.toNat < 0x110000 := c.valid
  have hchar : Char.ofNat c.val.toNat = c := Char.ofNat_toNat c
  have hbyte : ∀ n, n < 256 → (UInt8.ofNat n).toNat = n := fun n hn => by
    rw [UInt8.toNat_ofNat', Nat.mod_eq_of_lt hn]
  unfold String.utf8EncodeChar
  dsimp only
  split
  · next hone =>
    have ha := hbyte c.val.toNat (by omega)
    have hsmall : UInt8.ofNat c.val.toNat < 0x80 := by
      rw [UInt8.lt_iff_toNat_lt, ha]
      exact Nat.lt_succ_of_le hone
    show scan (UInt8.ofNat c.val.toNat :: rest) = _
    rw [scan_cons, laterTests_of_ascii hsmall, takePassing_none, firstChar, if_pos hsmall, ha,
      hchar]
  next hone =>
  split
  · next htwo =>
    have ha := hbyte (c.val.toNat / 64 % 32 + 192) (by omega)
    have hb := hbyte (c.val.toNat % 64 + 128) (by omega)
    have hvalue : 64 * (c.val.toNat / 64 % 32 + 192 - 192) + (c.val.toNat % 64 + 128 - 128) =
        c.val.toNat := by
      omega
    refine (scan_two (by omega) (isContinuation_iff.2 (by omega)) rest).trans ?_
    rw [assemble, List.foldl_cons, List.foldl_nil, ha, hb, hvalue, hchar]
  next htwo =>
  split
  · next hthree =>
    have ha := hbyte (c.val.toNat / 4096 % 16 + 224) (by omega)
    have hb := hbyte (c.val.toNat / 64 % 64 + 128) (by omega)
    have hd := hbyte (c.val.toNat % 64 + 128) (by omega)
    have hvalue : 64 * (64 * (c.val.toNat / 4096 % 16 + 224 - 224) +
        (c.val.toNat / 64 % 64 + 128 - 128)) + (c.val.toNat % 64 + 128 - 128) =
        c.val.toNat := by
      omega
    refine (scan_three (by omega) (secondOfThree_iff.2 (by omega))
      (isContinuation_iff.2 (by omega)) rest).trans ?_
    rw [assemble, List.foldl_cons, List.foldl_cons, List.foldl_nil, ha, hb, hd, hvalue, hchar]
  · next hthree =>
    have ha := hbyte (c.val.toNat / 262144 % 8 + 240) (by omega)
    have hb := hbyte (c.val.toNat / 4096 % 64 + 128) (by omega)
    have hd := hbyte (c.val.toNat / 64 % 64 + 128) (by omega)
    have he := hbyte (c.val.toNat % 64 + 128) (by omega)
    have hvalue : 64 * (64 * (64 * (c.val.toNat / 262144 % 8 + 240 - 240) +
        (c.val.toNat / 4096 % 64 + 128 - 128)) + (c.val.toNat / 64 % 64 + 128 - 128)) +
        (c.val.toNat % 64 + 128 - 128) =
        c.val.toNat := by
      omega
    refine (scan_four (by omega) (secondOfFour_iff.2 (by omega)) (isContinuation_iff.2 (by omega))
      (isContinuation_iff.2 (by omega)) rest).trans ?_
    rw [assemble, List.foldl_cons, List.foldl_cons, List.foldl_cons, List.foldl_nil, ha, hb, hd, he,
      hvalue, hchar]

theorem lossyChars_flatMap (chars : List Char) :
    lossyChars (chars.flatMap String.utf8EncodeChar) = chars := by
  induction chars with
  | nil => exact lossyChars_nil
  | cons c chars ih =>
    rw [List.flatMap_cons, lossyChars, scan_utf8EncodeChar]
    exact congrArg (c :: ·) ih

/-- The bytes that a text is encoded in are read as that text. -/
theorem lossyText_toUTF8 (text : String) : lossyText text.toUTF8.data.toList = text := by
  have hbytes : text.toUTF8.data.toList = text.toList.flatMap String.utf8EncodeChar := by
    conv => lhs; rw [← String.ofList_toList (s := text)]
    show (String.ofList text.toList).toByteArray.data.toList = _
    rw [String.toByteArray_ofList, List.utf8Encode]
    exact List.toList_data_toByteArray
  rw [lossyText, hbytes, lossyChars_flatMap, String.ofList_toList]

end Embroidery
