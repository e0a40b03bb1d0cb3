/-
  What reading a line gives.

  A line that is no comment is read by its words, and these are the same without the blanks around
  it and the comment behind it (`ofChars_bare`).  A foreign code is kept as such a bare line, so it
  reads back as itself (`parse_other`).

  Not every instruction is read from some line: a percentage is at most a hundred (`percentOf_le`),
  and a pause is the one of a number (`Instruction.IsReading`).
-/
import Embroidery.Proofs.Instruction.Reread

namespace Embroidery

-- Powers of naturals are those of core, whatever other instances are at hand.
attribute [local instance (2000)] instPowNat

open Binary64

/-! ## Percentages -/

/-- No percentage is above a hundred. -/
theorem percentOf_le (v : Binary64) : (percentOf v).toNat ≤ 100 := by
  have hzero : (0 : Binary64).toUInt8.toNat = 0 := by decide +kernel
  have hhundred : (100 : Binary64).toUInt8.toNat = 100 := by decide +kernel
  rw [percentOf, clamp]
  split
  · omega
  · split
    · omega
    · next hlow hhigh =>
      cases v with
      | nan => decide
      | infinite negative =>
        rw [ofNat_zero] at hlow
        rw [ofNat_hundred] at hhigh
        cases negative with
        | true => exact absurd rfl hlow
        | false => exact absurd rfl hhigh
      | finite negative units fits =>
        rw [ofNat_hundred] at hhigh
        have hle : signed negative units ≤ (100 * unitsInOne : Nat) := by
          refine Int.not_lt.1 ?_
          intro hlt
          exact hhigh (decide_eq_true hlt)
        have hwhole := signed_div_le hle
        rw [toNat_toUInt8]
        omega

/-! ## Pauses and comments -/

/-- A pause is read from the number that its sub-code is. -/
theorem parse_text_pause {code : PauseCode} (h : (ofInt code.code).isFinite = true) :
    Instruction.parse (Instruction.pause code).text =
      .ok (.pause (PauseCode.ofValue (ofInt code.code))) := by
  have hs : (Instruction.pause code).spelling =
      some ⟨'M', 0, argument 'C' (some (integerChars code.code))⟩ := rfl
  rw [Instruction.parse, Instruction.text, String.toList_ofList, chars_of_spelling hs,
    (sound_of_spelling hs).ofChars]
  show Except.ok (Instruction.pause (PauseCode.ofValue ((parameter _ 'C').getD 0))) = _
  rw [Spelling.words, parameter_code h, Option.getD_some]

/-- A comment reads back with its text trimmed. -/
theorem parse_text_comment (text : String) :
    Instruction.parse (Instruction.comment text).text =
      .ok (.comment (String.ofList (trim text.toList))) := by
  rw [Instruction.parse, Instruction.text, String.toList_ofList]
  show Instruction.ofChars (';' :: ' ' :: text.toList) = _
  have htrim : trim (' ' :: text.toList) = trim text.toList := by
    rw [trim, trimStart_of_blank (by decide), trim]
  rw [ofChars_semicolon, htrim]

/-! ## Lines by their words -/

namespace Instruction

variable {words : List Word} {verbatim line : List Char} {i : Instruction}

/-- An instruction that can be read from words, `verbatim` being the line of a foreign code. -/
def IsReading (verbatim : List Char) : Instruction → Prop
  | .comment _ => False
  | .pause code => ∃ v, code = PauseCode.ofValue v
  | .progress percent => percent.toNat ≤ 100
  | .other text => text = String.ofList verbatim
  | _ => True

theorem isReading_ofMotionCode {number : Nat} (h : ofMotionCode number words = some i) :
    i.IsReading verbatim := by
  unfold ofMotionCode at h
  split at h
  · exact Option.some.inj h ▸ trivial
  · exact Option.some.inj h ▸ trivial
  · exact Option.some.inj h ▸ trivial
  · exact nomatch h

theorem isReading_of_eq {ε : Type} {j : Instruction}
    (h : (Except.ok (some j) : Except ε (Option Instruction)) = .ok (some i))
    (hj : j.IsReading verbatim) : i.IsReading verbatim := by
  rw [← Option.some.inj (Except.ok.inj h)]
  exact hj

theorem isReading_ofMachineCode {number : Nat} (h : ofMachineCode number words = .ok (some i)) :
    i.IsReading verbatim := by
  unfold ofMachineCode at h
  split at h
  · exact isReading_of_eq h ⟨_, rfl⟩
  · exact isReading_of_eq h trivial
  · exact isReading_of_eq h trivial
  · exact isReading_of_eq h trivial
  · exact isReading_of_eq h trivial
  · exact isReading_of_eq h trivial
  · exact isReading_of_eq h trivial
  · -- a percentage is asked for, and held in its range
    split at h
    · exact isReading_of_eq h (percentOf_le _)
    · exact nomatch h
  · exact isReading_of_eq h trivial
  · exact nomatch Except.ok.inj h

theorem isReading_ofCommand {letter : Char} {number : Nat}
    (h : ofCommand letter number words verbatim = .ok i) : i.IsReading verbatim := by
  unfold ofCommand at h
  split at h
  · cases hcode : ofMotionCode number words with
    | none =>
      rw [hcode] at h
      rw [← Except.ok.inj h]
      rfl
    | some j =>
      rw [hcode] at h
      rw [← Except.ok.inj h]
      exact isReading_ofMotionCode hcode
  · split at h
    · cases hcode : ofMachineCode number words with
      | error fault =>
        rw [hcode] at h
        exact nomatch h
      | ok found =>
        rw [hcode] at h
        rw [← Except.ok.inj h]
        cases found with
        | none => rfl
        | some j => exact isReading_ofMachineCode hcode
    · exact nomatch h

/-- The instruction that the words of a line spell. -/
def ofLineWords (words : List Word) (verbatim : List Char) : Except LineError Instruction :=
  match words with
  | [] => .error .empty
  | command :: rest =>
    match command.value.bind asMachineWord with
    | none => .error (.noCommandNumber command.letter)
    | some number => ofCommand command.letter number.toNat rest verbatim

theorem isReading_ofLineWords (h : ofLineWords words verbatim = .ok i) : i.IsReading verbatim := by
  unfold ofLineWords at h
  split at h
  · exact nomatch h
  · split at h
    · exact nomatch h
    · exact isReading_ofCommand h

/-- A line without the blanks around it and the comment behind it. -/
def bare (line : List Char) : List Char := trim (stripComment (trim line))

/-- A line that is no comment is read by its words. -/
theorem ofChars_eq (h : ∀ c ∈ (trim line).head?, c ≠ ';') :
    ofChars line = ofLineWords (wordsOf (trim line)) (bare line) := by
  unfold ofChars
  dsimp only
  split
  · next heq => exact absurd rfl (h ';' (by rw [heq]; rfl))
  · rfl

theorem trim_bare (line : List Char) : trim (bare line) = bare line := trim_trim _

theorem of_mem_bare {c : Char} (h : c ∈ bare line) : c ≠ ';' ∧ c ≠ '(' :=
  of_mem_stripComment (mem_of_mem_trim h)

theorem stripComment_bare (line : List Char) : stripComment (bare line) = bare line :=
  stripComment_eq_self fun _ hc => of_mem_bare hc

theorem bare_bare (line : List Char) : bare (bare line) = bare line := by
  rw [bare, trim_bare, stripComment_bare, trim_bare]

theorem wordsOf_bare (line : List Char) : wordsOf (trim (bare line)) = wordsOf (trim line) := by
  rw [trim_bare, wordsOf, stripComment_bare, bare, tokens_trim, wordsOf]

/-- Without the blanks around it and the comment behind it, a line is read as before. -/
theorem ofChars_bare (h : ∀ c ∈ (trim line).head?, c ≠ ';') :
    ofChars (bare line) = ofChars line := by
  have hbare : ∀ c ∈ (trim (bare line)).head?, c ≠ ';' := by
    intro c hc
    exact (of_mem_bare (mem_of_mem_trim (List.mem_of_mem_head? hc))).1
  rw [ofChars_eq hbare, ofChars_eq h, wordsOf_bare, bare_bare]

/-- A line is a comment, or it is read like its bare line and by its words. -/
theorem parse_cases {line : String} (h : parse line = .ok i) :
    (∃ text, i = .comment (String.ofList (trim text))) ∨
      parse (String.ofList (bare line.toList)) = .ok i ∧ i.IsReading (bare line.toList) := by
  by_cases hcomment : ∀ c ∈ (trim line.toList).head?, c ≠ ';'
  · right
    rw [parse, String.toList_ofList, ofChars_bare hcomment]
    refine ⟨h, ?_⟩
    rw [parse, ofChars_eq hcomment] at h
    exact isReading_ofLineWords h
  · left
    cases hline : trim line.toList with
    | nil =>
      rw [hline] at hcomment
      refine absurd ?_ hcomment
      intro c hc
      cases hc
    | cons c rest =>
      have hc : c = ';' := by
        rw [hline] at hcomment
        refine Decidable.byContradiction ?_
        intro hne
        exact hcomment fun d hd => Option.some.inj hd ▸ hne
      rw [parse, ofChars, hline, hc] at h
      exact ⟨rest, (Except.ok.inj h).symm⟩

/-- What was kept of a foreign code reads back as that code. -/
theorem parse_other {line text : String} (h : parse line = .ok (.other text)) :
    parse text = .ok (.other text) := by
  rcases parse_cases h with ⟨comment, hcomment⟩ | ⟨hbare, hverbatim⟩
  · exact nomatch hcomment
  · rw [hverbatim] at hbare ⊢
    exact hbare

end Instruction
end Embroidery
