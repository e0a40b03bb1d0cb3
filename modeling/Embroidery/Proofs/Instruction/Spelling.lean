/-
  How instructions are spelled.

  Every instruction that is no comment and no foreign code is written as a command, a letter with a
  number, and arguments, with single spaces between them (`chars_of_spelling`).  Commands and
  arguments are tokens (`sound_of_spelling`), so such a line has only plain characters and spaces
  (`mem_chars_of_spelling`).
-/
import Embroidery.Proofs.Text.Words

namespace Embroidery

/-! ## Arguments -/

/-- An argument that may be absent, as a list of at most one word. -/
def argument (letter : Char) (value : Option (List Char)) : List (List Char) :=
  (value.map (letter :: ·)).toList

theorem optionalWord_eq (letter : Char) (value : Option (List Char)) :
    optionalWord letter value = spaced (argument letter value) := by
  cases value with
  | none => rfl
  | some v => simp [optionalWord, wordChars, argument, spaced]

theorem wordChars_eq (letter : Char) (value : List Char) :
    wordChars letter value = spaced (argument letter (some value)) := by
  simp [wordChars, argument, spaced]

/-- A letter as it is written in front of arguments: an upper-case one. -/
structure IsAddress (letter : Char) : Prop where
  alpha : letter.isAlpha = true
  upper : letter.toUpper = letter
  plain : isPlain letter = true

theorem isAddress_of_mem {letter : Char} (h : letter ∈ "CFGIMPSXYZ".toList) :
    IsAddress letter := by
  have hall : "CFGIMPSXYZ".toList.all
      (fun c => c.isAlpha && c.toUpper == c && isPlain c) = true := by
    decide
  have h := List.all_eq_true.1 hall letter h
  simp only [Bool.and_eq_true, beq_iff_eq] at h
  exact ⟨h.1.1, h.1.2, h.2⟩

/-! ## Plain arguments -/

theorem isPlain_naturalChars (n : Nat) : ∀ c ∈ naturalChars n, isPlain c = true := by
  intro c hc
  exact isPlain_of_isDigit (isDigit_of_mem_naturalChars hc)

theorem isPlain_zeros (count : Nat) : ∀ c ∈ List.replicate count '0', isPlain c = true := by
  intro c hc
  rw [(List.mem_replicate.1 hc).2]
  decide

theorem isPlain_append {cs ds : List Char} (hcs : ∀ c ∈ cs, isPlain c = true)
    (hds : ∀ d ∈ ds, isPlain d = true) : ∀ c ∈ cs ++ ds, isPlain c = true :=
  List.forall_mem_append.2 ⟨hcs, hds⟩

theorem isPlain_plainChars (pointZero : Bool) (digits : Nat) (exponent : Int) :
    ∀ c ∈ plainChars pointZero digits exponent, isPlain c = true := by
  unfold plainChars
  dsimp only
  split
  · refine isPlain_append (isPlain_append (isPlain_naturalChars _) (isPlain_zeros _)) ?_
    cases pointZero <;> exact List.all_eq_true.1 (by decide)
  · have hpadded := isPlain_append
      (isPlain_zeros ((-exponent).toNat + 1 - (naturalChars digits).length))
      (isPlain_naturalChars digits)
    refine isPlain_append ?_ ?_
    · intro c hc
      exact hpadded c (List.mem_of_mem_take hc)
    · intro c hc
      rcases List.mem_cons.1 hc with rfl | hc
      · decide
      · exact hpadded c (List.mem_of_mem_drop hc)

theorem isPlain_sign (negative : Bool) :
    ∀ c ∈ (if negative then ['-'] else [] : List Char), isPlain c = true := by
  cases negative <;> exact List.all_eq_true.1 (by decide)

theorem isPlain_coordinateChars (v : Binary64) : ∀ c ∈ coordinateChars v, isPlain c = true := by
  unfold coordinateChars
  cases roundTo coordinatePlaces v with
  | nan => exact List.all_eq_true.1 (by decide)
  | infinite negative =>
    exact isPlain_append (isPlain_sign negative) (List.all_eq_true.1 (by decide))
  | finite negative units fits =>
    exact isPlain_append (isPlain_sign negative) (isPlain_plainChars _ _ _)

theorem isPlain_integerChars (i : Int) : ∀ c ∈ integerChars i, isPlain c = true := by
  cases i with
  | ofNat n => exact isPlain_naturalChars n
  | negSucc n => exact List.forall_mem_cons.2 ⟨by decide, isPlain_naturalChars _⟩

theorem isToken_argument {letter : Char} (h : IsAddress letter) {value : Option (List Char)}
    (hvalue : ∀ v ∈ value, ∀ c ∈ v, isPlain c = true) :
    ∀ w ∈ argument letter value, IsToken w := by
  cases value with
  | none => exact List.forall_mem_nil _
  | some v =>
    intro w hw
    rw [List.mem_singleton.1 hw]
    exact isToken_cons h.plain (hvalue v rfl)

/-- A word that is a letter and the digits of a number. -/
theorem isToken_command {letter : Char} (h : IsAddress letter) (number : Nat) :
    IsToken (letter :: naturalChars number) :=
  isToken_cons h.plain (isPlain_naturalChars number)

/-! ## How instructions are spelled -/

/-- A command and its arguments. -/
structure Spelling where
  letter : Char
  number : UInt32
  args : List (List Char)

namespace Spelling

/-- The line of a spelling. -/
def chars (s : Spelling) : List Char := (s.letter :: naturalChars s.number.toNat) ++ spaced s.args

theorem chars_eq {letter : Char} {number : UInt32} (args : List (List Char))
    (command : List Char) (h : letter :: naturalChars number.toNat = command) :
    chars ⟨letter, number, args⟩ = command ++ spaced args := by
  rw [← h]
  rfl

structure Sound (s : Spelling) : Prop where
  address : IsAddress s.letter
  tokens : ∀ w ∈ s.args, IsToken w

/-- A sound spelling is a line of plain characters and spaces. -/
theorem Sound.mem_chars {s : Spelling} (h : s.Sound) {c : Char} (hc : c ∈ s.chars) :
    c = ' ' ∨ isPlain c = true :=
  mem_spaced (isToken_command h.address _) h.tokens hc

end Spelling

/-- The arguments of a move. -/
def Target.arguments (t : Target) : List (List Char) :=
  argument 'X' (t.x.map coordinateChars) ++ argument 'Y' (t.y.map coordinateChars)
    ++ argument 'F' (t.feed.map wordDigits)

/-- How an instruction is spelled, unless it is a comment or a foreign code. -/
def Instruction.spelling : Instruction → Option Spelling
  | .comment _ => none
  | .move .free target => some ⟨'G', 0, target.arguments⟩
  | .move .sewing target => some ⟨'G', 1, target.arguments⟩
  | .dwell millis => some ⟨'G', 4, argument 'P' (some (wordDigits millis))⟩
  | .pause code => some ⟨'M', 0, argument 'C' (some (integerChars code.code))⟩
  | .needleCycle speed =>
    some ⟨'M', 3, argument 'S' (speed.map wordDigits) ++ argument 'I' (some ['1'])⟩
  | .spindleStop => some ⟨'M', 5, []⟩
  | .motors on => some ⟨'M', if on then 17 else 18, []⟩
  | .tension on => some ⟨'M', if on then 42 else 41, []⟩
  | .progress percent => some ⟨'M', 73, argument 'P' (some (naturalChars percent.toNat))⟩
  | .acceleration x y z =>
    some ⟨'M', 201, argument 'X' (x.map wordDigits) ++ argument 'Y' (y.map wordDigits)
      ++ argument 'Z' (z.map wordDigits)⟩
  | .other _ => none

theorem targetChars_eq (t : Target) :
    optionalWord 'X' (t.x.map coordinateChars) ++ optionalWord 'Y' (t.y.map coordinateChars)
      ++ optionalWord 'F' (t.feed.map wordDigits) = spaced t.arguments := by
  simp only [optionalWord_eq, Target.arguments, spaced_append]

/-- The line of an instruction is that of its spelling. -/
theorem chars_of_spelling {i : Instruction} {s : Spelling} (h : i.spelling = some s) :
    i.chars = s.chars := by
  cases i with
  | comment text => exact absurd h.symm (Option.some_ne_none s)
  | other text => exact absurd h.symm (Option.some_ne_none s)
  | move kind t =>
    have ht := targetChars_eq t
    cases kind with
    | free =>
      rw [← Option.some.inj h, Spelling.chars_eq _ "G0".toList (by decide), ← ht]
      show "G0".toList ++ _ ++ _ ++ _ = _
      simp only [List.append_assoc]
    | sewing =>
      rw [← Option.some.inj h, Spelling.chars_eq _ "G1".toList (by decide), ← ht]
      show "G1".toList ++ _ ++ _ ++ _ = _
      simp only [List.append_assoc]
  | dwell millis =>
    rw [← Option.some.inj h, Spelling.chars_eq _ "G4".toList (by decide), ← wordChars_eq]
    rfl
  | pause code =>
    rw [← Option.some.inj h, Spelling.chars_eq _ "M0".toList (by decide), ← wordChars_eq]
    rfl
  | needleCycle speed =>
    rw [← Option.some.inj h, Spelling.chars_eq _ "M3".toList (by decide), spaced_append,
      ← optionalWord_eq, ← wordChars_eq, ← List.append_assoc]
    rfl
  | spindleStop =>
    rw [← Option.some.inj h, Spelling.chars_eq _ "M5".toList (by decide)]
    rfl
  | motors on =>
    rw [← Option.some.inj h]
    cases on <;> decide
  | tension on =>
    rw [← Option.some.inj h]
    cases on <;> decide
  | progress percent =>
    rw [← Option.some.inj h, Spelling.chars_eq _ "M73".toList (by decide), ← wordChars_eq]
    rfl
  | acceleration x y z =>
    rw [← Option.some.inj h, Spelling.chars_eq _ "M201".toList (by decide)]
    show "M201".toList ++ _ ++ _ ++ _ = _
    simp only [spaced_append, optionalWord_eq, List.append_assoc]

theorem isToken_value {letter : Char} (h : letter ∈ "CFGIMPSXYZ".toList) {v : List Char}
    (hv : ∀ c ∈ v, isPlain c = true) : ∀ w ∈ argument letter (some v), IsToken w := by
  refine isToken_argument (isAddress_of_mem h) ?_
  intro x hx
  rw [← Option.some.inj hx]
  exact hv

theorem isToken_word {letter : Char} (h : letter ∈ "CFGIMPSXYZ".toList) (value : Option UInt32) :
    ∀ w ∈ argument letter (value.map wordDigits), IsToken w := by
  refine isToken_argument (isAddress_of_mem h) ?_
  intro v hv
  obtain ⟨n, -, rfl⟩ := Option.map_eq_some_iff.1 hv
  exact isPlain_naturalChars _

theorem isToken_coordinate {letter : Char} (h : letter ∈ "CFGIMPSXYZ".toList)
    (value : Option Binary64) : ∀ w ∈ argument letter (value.map coordinateChars), IsToken w := by
  refine isToken_argument (isAddress_of_mem h) ?_
  intro v hv
  obtain ⟨x, -, rfl⟩ := Option.map_eq_some_iff.1 hv
  exact isPlain_coordinateChars _

theorem isToken_arguments (t : Target) : ∀ w ∈ t.arguments, IsToken w := by
  intro w hw
  rcases List.mem_append.1 hw with hw | hw
  · rcases List.mem_append.1 hw with hw | hw
    · exact isToken_coordinate (by decide) t.x w hw
    · exact isToken_coordinate (by decide) t.y w hw
  · exact isToken_word (by decide) t.feed w hw

/-- The arguments that are written are tokens. -/
theorem sound_of_spelling {i : Instruction} {s : Spelling} (h : i.spelling = some s) : s.Sound := by
  have hG : IsAddress 'G' := isAddress_of_mem (by decide)
  have hM : IsAddress 'M' := isAddress_of_mem (by decide)
  cases i with
  | comment text => exact absurd h.symm (Option.some_ne_none s)
  | other text => exact absurd h.symm (Option.some_ne_none s)
  | move kind t =>
    cases kind with
    | free =>
      rw [← Option.some.inj h]
      exact ⟨hG, isToken_arguments t⟩
    | sewing =>
      rw [← Option.some.inj h]
      exact ⟨hG, isToken_arguments t⟩
  | dwell millis =>
    rw [← Option.some.inj h]
    exact ⟨hG, isToken_value (by decide) (isPlain_naturalChars _)⟩
  | pause code =>
    rw [← Option.some.inj h]
    exact ⟨hM, isToken_value (by decide) (isPlain_integerChars _)⟩
  | needleCycle speed =>
    have hone : ∀ w ∈ argument 'I' (some ['1']), IsToken w :=
      isToken_value (by decide) (List.all_eq_true.1 (by decide))
    rw [← Option.some.inj h]
    exact ⟨hM, List.forall_mem_append.2 ⟨isToken_word (by decide) speed, hone⟩⟩
  | spindleStop =>
    rw [← Option.some.inj h]
    exact ⟨hM, List.forall_mem_nil _⟩
  | motors on =>
    rw [← Option.some.inj h]
    exact ⟨hM, List.forall_mem_nil _⟩
  | tension on =>
    rw [← Option.some.inj h]
    exact ⟨hM, List.forall_mem_nil _⟩
  | progress percent =>
    rw [← Option.some.inj h]
    exact ⟨hM, isToken_value (by decide) (isPlain_naturalChars _)⟩
  | acceleration x y z =>
    rw [← Option.some.inj h]
    refine ⟨hM, ?_⟩
    intro w hw
    rcases List.mem_append.1 hw with hw | hw
    · rcases List.mem_append.1 hw with hw | hw
      · exact isToken_word (by decide) x w hw
      · exact isToken_word (by decide) y w hw
    · exact isToken_word (by decide) z w hw

/-- The line of an instruction that is no comment and no foreign code has only plain characters and
    spaces. -/
theorem mem_chars_of_spelling {i : Instruction} {s : Spelling} (h : i.spelling = some s) {c : Char}
    (hc : c ∈ i.chars) : c = ' ' ∨ isPlain c = true := by
  rw [chars_of_spelling h] at hc
  exact (sound_of_spelling h).mem_chars hc

end Embroidery
