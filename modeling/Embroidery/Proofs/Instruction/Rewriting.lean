/-
  Instructions and their lines.

  An instruction in normal form comes back from its line, the coordinates of a move as their texts
  spell them (`parse_text_of_normal`).  A foreign code is in normal form if it was read from a line,
  whatever it looks like: its text is a bare line, which is read as it stands.

  What is read from a line need not be in normal form, and writing it may change what it means.
  There are two ways (`rewriting_keeps_meaning_iff`).  A fraction is dropped from the sub-code of a
  pause only behind the decision what it asks for, so the fractions between 100 and 102 are foreign
  at first and not when they are read again.  And a coordinate is lost if a hundred times the
  coordinate is not finite (`meaning_lost_in_rewriting`).
-/
import Embroidery.Proofs.Instruction.Coordinate
import Embroidery.Proofs.Instruction.Reading
import Embroidery.Proofs.Results

namespace Embroidery

-- Powers of naturals are those of core, whatever other instances are at hand.
attribute [local instance (2000)] instPowNat

open Binary64

variable {i : Instruction} {line : String}

namespace Instruction

/-! ## Normal forms -/

/-- The instruction says no more than its line can hold: the text of a comment has no blanks around
    it, pauses and percentages are in their ranges, and a foreign code was read from some line. -/
def Normal : Instruction → Prop
  | .comment text => trim text.toList = text.toList
  | .pause (.colorStart color) => 1 ≤ color.toNat ∧ color.toNat ≤ maxColor
  | .pause (.other code) => (code < 1 ∨ 101 < code) ∧ code.natAbs ≤ 2 ^ (53 : Nat)
  | .progress percent => percent.toNat ≤ 100
  | .other text => ∃ line, parse line = .ok (.other text)
  | _ => True

/-- **Instructions come back.**  An instruction in normal form is read from its line, each
    coordinate of a move as its text spells it, and left out if that is no finite number. -/
theorem parse_text_of_normal (h : i.Normal) : parse i.text = .ok i.reread := by
  cases i with
  | comment text =>
    have htrim : trim text.toList = text.toList := h
    rw [parse_text_comment, htrim, String.ofList_toList]
    rfl
  | pause code =>
    cases code with
    | other code =>
      obtain ⟨hforeign, hsize⟩ := h
      have hholds : Holds code := holds_of_natAbs_le hsize
      have hmin : Int64.minValue.toInt = -9223372036854775808 := rfl
      have hmax : Int64.maxValue.toInt = 9223372036854775807 := rfl
      have hword : (ofInt code).toInt64 = code := toInt64_ofInt hholds (by omega) (by omega)
      have hregular : (PauseCode.other code).Regular := ⟨hforeign, hword, hholds⟩
      rw [parse_text_pause (PauseCode.isFinite_code hregular), PauseCode.ofValue_code hregular]
      rfl
    | colorStart color => exact parse_text h
    | threadInserted => exact parse_text trivial
    | trim => exact parse_text trivial
  | other text =>
    obtain ⟨line, hline⟩ := h
    show parse (String.ofList text.toList) = .ok (.other text)
    rw [String.ofList_toList]
    exact parse_other hline
  | progress percent => exact parse_text h
  | _ => exact parse_text trivial

/-- A foreign code behind a token that is no word, the least sub-code that is asked to come back,
    and a move whose one coordinate spells no finite number. -/
theorem parse_text_of_three_lines :
    parse "12 G5 X1" = .ok (.other "12 G5 X1") ∧
      parse "M0 C-9007199254740992" = .ok (.pause (.other (-9007199254740992))) ∧
      parse "G0 X-inf Y0.33 F3000" = .ok (.move .free ⟨none, some (33 / 100), some 3000⟩) := by
  let foreign : Instruction := .other "12 G5 X1"
  let pause : Instruction := .pause (.other (-9007199254740992))
  let move : Instruction := .move .free ⟨some (.infinite true), some (1 / 3), some 3000⟩
  have hforeign : foreign.Normal := ⟨" 12 G5 X1 (arc)", ok_of_toOption (by decide +kernel)⟩
  have hpause : pause.Normal := ⟨.inl (by decide), by decide⟩
  have hforeignText : foreign.text = "12 G5 X1" := by decide +kernel
  have hpauseText : pause.text = "M0 C-9007199254740992" := by decide +kernel
  have hmoveText : move.text = "G0 X-inf Y0.33 F3000" := by decide +kernel
  have hmoveBack : move.reread = .move .free ⟨none, some (33 / 100), some 3000⟩ := by
    decide +kernel
  rw [← hforeignText, ← hpauseText, ← hmoveText, ← hmoveBack]
  exact ⟨parse_text_of_normal hforeign, parse_text_of_normal hpause, parse_text_of_normal trivial⟩

/-! ## Rewriting -/

/-- What an instruction that was read from a line becomes when it is written and read again. -/
def rewritten : Instruction → Instruction
  | .move kind target => .move kind target.reread
  | .pause code => .pause code.rewritten
  | i => i

/-- The same instruction, though a move may go to another point, as long as it names the same
    coordinates. -/
def SameMeaning : Instruction → Instruction → Prop
  | .move kind t, .move kind' t' =>
    kind = kind' ∧ t.x.isSome = t'.x.isSome ∧ t.y.isSome = t'.y.isSome ∧ t.feed = t'.feed
  | i, j => i = j

/-- The instruction means the same when it is written and read again. -/
def IsStable : Instruction → Prop
  | .move _ t => (∀ x ∈ t.x, (x * 100).isFinite = true) ∧ ∀ y ∈ t.y, (y * 100).isFinite = true
  | .pause (.other code) => code ≠ 100 ∧ code ≠ 101
  | _ => True

theorem isSome_bind_readBack (value : Option Binary64) :
    value.isSome = (value.bind readBack).isSome ↔ ∀ v ∈ value, (v * 100).isFinite = true := by
  cases value with
  | none => exact ⟨fun _ v hv => (nomatch hv), fun _ => rfl⟩
  | some v =>
    rw [Option.bind_some, isSome_readBack, Option.isSome_some]
    constructor
    · intro h w hw
      rw [← Option.some.inj hw]
      exact h.symm
    · intro h
      exact (h v rfl).symm

theorem sameMeaning_rewritten_iff (i : Instruction) : i.SameMeaning i.rewritten ↔ i.IsStable := by
  cases i with
  | move kind t =>
    show kind = kind ∧ _ = (t.x.bind readBack).isSome ∧ _ = (t.y.bind readBack).isSome ∧ _ = _ ↔ _
    rw [isSome_bind_readBack, isSome_bind_readBack]
    constructor
    · rintro ⟨-, hx, hy, -⟩
      exact ⟨hx, hy⟩
    · rintro ⟨hx, hy⟩
      exact ⟨rfl, hx, hy, rfl⟩
  | pause code =>
    cases code with
    | other code =>
      show Instruction.pause (.other code) = .pause (PauseCode.rewritten (.other code)) ↔ _
      rw [PauseCode.rewritten]
      constructor
      · intro h
        constructor <;> rintro rfl <;> exact absurd h (by decide)
      · rintro ⟨hhundred, htrim⟩
        rw [if_neg hhundred, if_neg htrim]
    | _ => exact ⟨fun _ => trivial, fun _ => rfl⟩
  | _ => exact ⟨fun _ => trivial, fun _ => rfl⟩

theorem parse_text_rewritten (h : parse line = .ok i) : parse i.text = .ok i.rewritten := by
  rcases parse_cases h with ⟨comment, rfl⟩ | ⟨-, hreading⟩
  · rw [parse_text_comment, String.toList_ofList, trim_trim]
    rfl
  · cases i with
    | comment text => exact hreading.elim
    | pause code =>
      obtain ⟨v, rfl⟩ := hreading
      rw [parse_text_pause (PauseCode.isFinite_code_ofValue v), PauseCode.ofValue_code_ofValue]
      rfl
    | other text =>
      show parse (String.ofList text.toList) = .ok (.other text)
      rw [String.ofList_toList]
      exact parse_other h
    | progress percent => exact parse_text hreading
    | _ => exact parse_text trivial

/-- The pauses that do not come back are those of the fractions between 100 and 102. -/
theorem isStable_ofValue_iff (v : Binary64) :
    (Instruction.pause (.ofValue v)).IsStable ↔ ¬(100 < v ∧ v < 101) ∧ ¬(101 < v ∧ v < 102) := by
  have hinserted : PauseCode.ofValue v = .other 100 ↔ 100 < v ∧ v < 101 :=
    @PauseCode.ofValue_eq_other_iff v 100 (by decide) (by decide)
  have htrim : PauseCode.ofValue v = .other 101 ↔ 101 < v ∧ v < 102 :=
    @PauseCode.ofValue_eq_other_iff v 101 (by decide) (by decide)
  rw [← hinserted, ← htrim]
  cases PauseCode.ofValue v with
  | other code =>
    rw [PauseCode.other.injEq, PauseCode.other.injEq]
    rfl
  | _ => exact ⟨fun _ => ⟨nofun, nofun⟩, fun _ => trivial⟩

/-- **Rewriting a line.**  What is read from a line is written and read again as the same
    instruction, with the same fields, and a move with the same coordinates present, exactly if no
    sub-code was cut to 100 or 101 and a hundred times each coordinate is finite.  The sub-codes
    that are cut so are the fractions between 100 and 102. -/
theorem rewriting_keeps_meaning_iff (h : parse line = .ok i) :
    parse i.text = .ok i.rewritten ∧ (i.SameMeaning i.rewritten ↔ i.IsStable) ∧
      ∀ v, i = .pause (.ofValue v) → (i.IsStable ↔ ¬(100 < v ∧ v < 101) ∧ ¬(101 < v ∧ v < 102)) := by
  refine ⟨parse_text_rewritten h, sameMeaning_rewritten_iff i, ?_⟩
  rintro v rfl
  exact isStable_ofValue_iff v

/-- A move with a comment and a feed rate that is cut. -/
theorem rewriting_of_second_corner :
    ∃ i, parse "G1 X2.5 Y-0.125 F800.9 ; second corner" = .ok i ∧
      i.text = "G1 X2.50 Y-0.13 F800" ∧ parse i.text = .ok i.rewritten ∧
      i.SameMeaning i.rewritten := by
  let i : Instruction := .move .sewing ⟨some (5 / 2), some (-1 / 8), some 800⟩
  have hline : parse "G1 X2.5 Y-0.125 F800.9 ; second corner" = .ok i :=
    ok_of_toOption (by decide +kernel)
  obtain ⟨hback, hmeaning, -⟩ := rewriting_keeps_meaning_iff hline
  refine ⟨i, hline, by decide +kernel, hback, hmeaning.2 ⟨?_, ?_⟩⟩
  · intro x hx
    rw [← Option.some.inj hx]
    decide +kernel
  · intro y hy
    rw [← Option.some.inj hy]
    decide +kernel

/-- A pause for something else becomes one for the thread, and a move loses its coordinate. -/
theorem meaning_lost_in_rewriting :
    (parse "M0 C100.5" = .ok (.pause (.other 100)) ∧
      (Instruction.pause (.other 100)).text = "M0 C100" ∧
      parse "M0 C100" = .ok (.pause .threadInserted) ∧
      ¬SameMeaning (.pause (.other 100)) (.pause .threadInserted)) ∧
    ∃ x, parse "G0 X1e307" = .ok (.move .free ⟨some x, none, none⟩) ∧
      (Instruction.move .free ⟨some x, none, none⟩).text = "G0 Xinf" ∧
      parse "G0 Xinf" = .ok (.move .free ⟨none, none, none⟩) ∧
      ¬SameMeaning (.move .free ⟨some x, none, none⟩) (.move .free ⟨none, none, none⟩) := by
  constructor
  · refine ⟨ok_of_toOption (by decide +kernel), by decide +kernel,
      ok_of_toOption (by decide +kernel), ?_⟩
    intro h
    exact absurd (show Instruction.pause (.other 100) = .pause .threadInserted from h) (by decide)
  · refine ⟨Binary64.ofNat (10 ^ (307 : Nat)), ok_of_toOption (by decide +kernel),
      by decide +kernel, ok_of_toOption (by decide +kernel), ?_⟩
    rintro ⟨-, hx, -⟩
    exact Bool.noConfusion hx

end Instruction
end Embroidery
