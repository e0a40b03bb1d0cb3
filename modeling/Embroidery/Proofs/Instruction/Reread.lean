/-
  What an instruction reads back as.

  A line of a command and arguments is read word by word (`Spelling.Sound.ofChars`), so an
  instruction reads back as itself, except that a coordinate becomes the number that its text
  spells, if that is finite (`parse_text`).  A comment reads back as a comment, its text trimmed
  (`ofChars_semicolon`).

  Pauses and percentages are read through doubles; they come back when their number is in the range
  that belongs to them (`Instruction.Writable`).
-/
import Embroidery.Proofs.Instruction.PauseCode
import Embroidery.Proofs.Instruction.Spelling

namespace Embroidery

-- Powers of naturals are those of core, whatever other instances are at hand.
attribute [local instance (2000)] instPowNat

/-! ## The instruction that comes back -/

/-- The finite number that the text of a coordinate spells, if it spells one. -/
def readBack (v : Binary64) : Option Binary64 :=
  (readNumber (coordinateChars v)).filter Binary64.isFinite

/-- A target with each coordinate as its text spells it. -/
def Target.reread (t : Target) : Target where
  x := t.x.bind readBack
  y := t.y.bind readBack
  feed := t.feed

namespace Instruction

/-- The instruction that the line of an instruction reads back as. -/
def reread : Instruction → Instruction
  | .move kind target => .move kind target.reread
  | i => i

/-- No comment and no foreign code, and a pause code or percentage that its number stands for. -/
def Writable : Instruction → Prop
  | .comment _ => False
  | .pause (.colorStart color) => 1 ≤ color.toNat ∧ color.toNat ≤ maxColor
  | .pause (.other _) => False
  | .progress percent => percent.toNat ≤ 100
  | .other _ => False
  | _ => True

end Instruction

/-- What comes back is spelled. -/
theorem exists_spelling {i : Instruction} (h : i.Writable) : ∃ s, i.spelling = some s := by
  cases i with
  | comment text => exact h.elim
  | other text => exact h.elim
  | move kind t => cases kind <;> exact ⟨_, rfl⟩
  | _ => exact ⟨_, rfl⟩

/-! ## Arguments -/

/-- The words that an argument reads back as. -/
def argumentWords (letter : Char) (value : Option (List Char)) : List Word :=
  (value.map fun v => ⟨letter, (readNumber v).filter Binary64.isFinite⟩).toList

theorem filterMap_argument {letter : Char} (h : IsAddress letter) (value : Option (List Char)) :
    (argument letter value).filterMap Word.ofToken = argumentWords letter value := by
  cases value with
  | none => rfl
  | some v => simp [argument, argumentWords, Word.ofToken, h.alpha, h.upper]

/-- An argument answers for its letter, if nothing behind it does. -/
theorem parameter_own {letter : Char} {value : Option (List Char)} {rest : List Word}
    (h : parameter rest letter = none) :
    parameter (argumentWords letter value ++ rest) letter =
      value.bind fun v => (readNumber v).filter Binary64.isFinite := by
  cases value with
  | none => exact h
  | some v => simp [argumentWords, parameter]

/-- An argument does not answer for another letter. -/
theorem parameter_other {address letter : Char} (value : Option (List Char)) (rest : List Word)
    (h : address ≠ letter) :
    parameter (argumentWords address value ++ rest) letter = parameter rest letter := by
  cases value with
  | none => rfl
  | some v => simp [argumentWords, parameter, h]

/-- The number of an argument that is written in digits. -/
theorem filter_naturalChars {n : Nat} (hn : n ≤ 2 ^ (53 : Nat)) :
    (readNumber (naturalChars n)).filter Binary64.isFinite = some (Binary64.ofNat n) := by
  rw [readNumber_naturalChars, Option.filter_some, if_pos (Binary64.isFinite_ofNat hn)]

/-- A machine word that may be absent reads back as it is. -/
theorem asMachineWord_wordDigits (value : Option UInt32) :
    ((value.map wordDigits).bind fun v =>
      (readNumber v).filter Binary64.isFinite).bind asMachineWord = value := by
  cases value with
  | none => rfl
  | some n =>
    have hlt := n.toNat_lt
    simp only [Option.map_some, Option.bind_some, wordDigits]
    rw [filter_naturalChars (by omega), Option.bind_some, asMachineWord_ofNat]

/-! ## Lines -/

/-- A line that starts with a semicolon is a comment, whatever follows. -/
theorem ofChars_semicolon (text : List Char) :
    Instruction.ofChars (';' :: text) = .ok (.comment (String.ofList (trim text))) := by
  have hline : trim (';' :: text) = ';' :: trimEnd text := by
    rw [trim, trimStart_of_not_blank (by decide), trimEnd_of_not_blank (by decide)]
  have htext : trim (trimEnd text) = trim text := by
    rw [trim, trimStart_trimEnd, trimEnd_trimEnd, trim]
  unfold Instruction.ofChars
  rw [hline]
  simp only [htext]

/-- A trimmed line that is no comment is read by its words. -/
theorem ofChars_of_words {line : List Char} {command : Word} {words : List Word}
    {number : UInt32} (htrim : trim line = line) (hhead : ∀ c ∈ line.head?, c ≠ ';')
    (hwords : wordsOf line = command :: words)
    (hnumber : command.value.bind asMachineWord = some number) :
    Instruction.ofChars line =
      Instruction.ofCommand command.letter number.toNat words (trim (stripComment line)) := by
  unfold Instruction.ofChars
  rw [htrim]
  dsimp only
  split
  · exact absurd rfl (hhead ';' rfl)
  · rw [hwords]
    dsimp only
    rw [hnumber]

/-- A line of a command and arguments is read as that command with the words of the arguments. -/
theorem ofChars_spaced {letter : Char} (h : IsAddress letter) (number : UInt32)
    {args : List (List Char)} (hargs : ∀ w ∈ args, IsToken w) :
    Instruction.ofChars ((letter :: naturalChars number.toNat) ++ spaced args) =
      Instruction.ofCommand letter number.toNat (args.filterMap Word.ofToken)
        ((letter :: naturalChars number.toNat) ++ spaced args) := by
  have hcommand := isToken_command h number.toNat
  have htrim := trim_spaced hcommand hargs
  have hstrip := stripComment_spaced hcommand hargs
  have hlt := number.toNat_lt
  have hwords : wordsOf ((letter :: naturalChars number.toNat) ++ spaced args) =
      ⟨letter, some (Binary64.ofNat number.toNat)⟩ :: args.filterMap Word.ofToken := by
    rw [wordsOf, hstrip, tokens_spaced hcommand hargs, List.filterMap_cons, Word.ofToken,
      if_pos h.alpha, h.upper, filter_naturalChars (by omega)]
  have hhead : ∀ c ∈ ((letter :: naturalChars number.toNat) ++ spaced args).head?, c ≠ ';' := by
    intro c hc
    rw [← Option.some.inj hc]
    exact (isPlain_iff.1 h.plain).2.1
  have hnumber := (Option.bind_some _ _).trans (asMachineWord_ofNat number)
  rw [ofChars_of_words htrim hhead hwords hnumber, hstrip, htrim]

/-! ## Percentages -/

theorem percentOf_ofNat {percent : UInt8} (h : percent.toNat ≤ 100) :
    percentOf (Binary64.ofNat percent.toNat) = percent := by
  -- the clamp leaves a percentage alone
  have hlow : ¬Binary64.ofNat percent.toNat < 0 := fun hlt =>
    absurd ((Binary64.lt_ofNat_iff (n := 0) (by omega) (by decide)).1 hlt) (Nat.not_lt_zero _)
  have hhigh : ¬100 < Binary64.ofNat percent.toNat := fun hlt =>
    absurd ((Binary64.lt_ofNat_iff (m := 100) (by decide) (by omega)).1 hlt) (Nat.not_lt.2 h)
  rw [percentOf, Binary64.clamp, if_neg hlow, if_neg hhigh, Binary64.toUInt8_ofNat]

/-! ## Reading -/

namespace Spelling

/-- The words of the arguments as they are read. -/
def words (s : Spelling) : List Word := s.args.filterMap Word.ofToken

theorem Sound.ofChars {s : Spelling} (h : s.Sound) :
    Instruction.ofChars s.chars =
      Instruction.ofCommand s.letter s.number.toNat s.words s.chars :=
  ofChars_spaced h.address s.number h.tokens

end Spelling

theorem bind_readBack (value : Option Binary64) :
    ((value.map coordinateChars).bind fun v => (readNumber v).filter Binary64.isFinite) =
      value.bind readBack := by
  cases value <;> rfl

/-- The words of a move name its target, each coordinate as its text spells it. -/
theorem ofWords_arguments (t : Target) :
    Target.ofWords (t.arguments.filterMap Word.ofToken) = t.reread := by
  have hwords : t.arguments.filterMap Word.ofToken =
      argumentWords 'X' (t.x.map coordinateChars) ++ (argumentWords 'Y' (t.y.map coordinateChars)
        ++ (argumentWords 'F' (t.feed.map wordDigits) ++ [])) := by
    simp only [Target.arguments, List.filterMap_append, List.append_assoc, List.append_nil,
      filterMap_argument (isAddress_of_mem (show 'X' ∈ _ by decide)),
      filterMap_argument (isAddress_of_mem (show 'Y' ∈ _ by decide)),
      filterMap_argument (isAddress_of_mem (show 'F' ∈ _ by decide))]
  -- each letter passes over the arguments of the others
  have hfeed : parameter (argumentWords 'F' (t.feed.map wordDigits) ++ []) 'F' = _ :=
    parameter_own rfl
  rw [hwords, Target.ofWords, wordParameter]
  rw [parameter_other _ _ (show 'X' ≠ 'Y' by decide),
    parameter_other _ _ (show 'X' ≠ 'F' by decide),
    parameter_other _ _ (show 'Y' ≠ 'F' by decide), hfeed, asMachineWord_wordDigits]
  rw [@parameter_own 'Y' _ _ (by rw [parameter_other _ _ (by decide)]; rfl),
    parameter_own (by rw [parameter_other _ _ (by decide), parameter_other _ _ (by decide)]; rfl),
    bind_readBack, bind_readBack]
  rfl

/-- The only argument of a command. -/
theorem parameter_single {letter : Char} (hletter : IsAddress letter) (value : List Char) :
    parameter ((argument letter (some value)).filterMap Word.ofToken) letter =
      (readNumber value).filter Binary64.isFinite := by
  rw [filterMap_argument hletter, ← List.append_nil (argumentWords letter _), parameter_own rfl]
  rfl

/-- The words of an acceleration name its three limits. -/
theorem wordParameter_acceleration (x y z : Option UInt32) :
    let words := (argument 'X' (x.map wordDigits) ++ argument 'Y' (y.map wordDigits)
      ++ argument 'Z' (z.map wordDigits)).filterMap Word.ofToken
    wordParameter words 'X' = x ∧ wordParameter words 'Y' = y ∧ wordParameter words 'Z' = z := by
  intro words
  have hwords : words = argumentWords 'X' (x.map wordDigits)
      ++ (argumentWords 'Y' (y.map wordDigits)
        ++ (argumentWords 'Z' (z.map wordDigits) ++ [])) := by
    simp only [words, List.filterMap_append, List.append_assoc, List.append_nil,
      filterMap_argument (isAddress_of_mem (show 'X' ∈ _ by decide)),
      filterMap_argument (isAddress_of_mem (show 'Y' ∈ _ by decide)),
      filterMap_argument (isAddress_of_mem (show 'Z' ∈ _ by decide))]
  rw [hwords]
  refine ⟨?_, ?_, ?_⟩
  · rw [wordParameter, parameter_own (by
      rw [parameter_other _ _ (by decide), parameter_other _ _ (by decide)]; rfl),
      asMachineWord_wordDigits]
  · rw [wordParameter, parameter_other _ _ (by decide), parameter_own (by
      rw [parameter_other _ _ (by decide)]; rfl), asMachineWord_wordDigits]
  · rw [wordParameter, parameter_other _ _ (by decide), parameter_other _ _ (by decide),
      parameter_own rfl, asMachineWord_wordDigits]

/-- The only argument of a pause is its sub-code. -/
theorem parameter_code {code : PauseCode} (h : (Binary64.ofInt code.code).isFinite = true) :
    parameter ((argument 'C' (some (integerChars code.code))).filterMap Word.ofToken) 'C' =
      some (Binary64.ofInt code.code) := by
  rw [parameter_single (isAddress_of_mem (by decide)), readNumber_integerChars,
    Option.filter_some, if_pos h]

theorem regular_of_writable {code : PauseCode} (h : (Instruction.pause code).Writable) :
    code.Regular := by
  cases code with
  | colorStart color => exact h
  | threadInserted => trivial
  | trim => trivial
  | other code => exact h.elim

theorem ofMachineCode_progress {words : List Word} {value : Binary64}
    (h : parameter words 'P' = some value) :
    Instruction.ofMachineCode 73 words = .ok (some (.progress (percentOf value))) := by
  unfold Instruction.ofMachineCode
  rw [h]
  rfl

/-- The command of an instruction and the words of its arguments name the instruction. -/
theorem ofCommand_spelling {i : Instruction} {s : Spelling} (hi : i.Writable)
    (h : i.spelling = some s) (verbatim : List Char) :
    Instruction.ofCommand s.letter s.number.toNat s.words verbatim = .ok i.reread := by
  cases i with
  | comment text => exact absurd h.symm (Option.some_ne_none s)
  | other text => exact absurd h.symm (Option.some_ne_none s)
  | move kind t =>
    have ht := ofWords_arguments t
    cases kind with
    | free =>
      rw [← Option.some.inj h]
      show Except.ok (Instruction.move .free (Target.ofWords _)) = _
      rw [Spelling.words, ht]
      rfl
    | sewing =>
      rw [← Option.some.inj h]
      show Except.ok (Instruction.move .sewing (Target.ofWords _)) = _
      rw [Spelling.words, ht]
      rfl
  | dwell millis =>
    have hlt := millis.toNat_lt
    rw [← Option.some.inj h]
    show Except.ok (Instruction.dwell ((wordParameter _ 'P').getD 0)) = _
    rw [Spelling.words, wordParameter, parameter_single (isAddress_of_mem (by decide)), wordDigits,
      filter_naturalChars (by omega), Option.bind_some, asMachineWord_ofNat]
    rfl
  | pause code =>
    have hregular := regular_of_writable hi
    rw [← Option.some.inj h]
    show Except.ok (Instruction.pause (PauseCode.ofValue ((parameter _ 'C').getD 0))) = _
    rw [Spelling.words, parameter_code (PauseCode.isFinite_code hregular), Option.getD_some,
      PauseCode.ofValue_code hregular]
    rfl
  | needleCycle speed =>
    rw [← Option.some.inj h]
    show Except.ok (Instruction.needleCycle (wordParameter _ 'S')) = _
    rw [Spelling.words, List.filterMap_append, filterMap_argument (isAddress_of_mem (by decide)),
      filterMap_argument (isAddress_of_mem (by decide)), wordParameter, parameter_own rfl,
      asMachineWord_wordDigits]
    rfl
  | spindleStop =>
    rw [← Option.some.inj h]
    rfl
  | motors on =>
    rw [← Option.some.inj h]
    cases on <;> rfl
  | tension on =>
    rw [← Option.some.inj h]
    cases on <;> rfl
  | progress percent =>
    have hlt := percent.toNat_lt
    have hpercent : percent.toNat ≤ 100 := hi
    rw [← Option.some.inj h]
    have hword : parameter
        (Spelling.words ⟨'M', 73, argument 'P' (some (naturalChars percent.toNat))⟩) 'P' =
        some (Binary64.ofNat percent.toNat) := by
      rw [Spelling.words, parameter_single (isAddress_of_mem (by decide)),
        filter_naturalChars (by omega)]
    show (Instruction.ofMachineCode 73 _).map _ = _
    rw [ofMachineCode_progress hword, percentOf_ofNat hpercent]
    rfl
  | acceleration x y z =>
    obtain ⟨hx, hy, hz⟩ := wordParameter_acceleration x y z
    rw [← Option.some.inj h]
    show Except.ok (Instruction.acceleration (wordParameter _ 'X') (wordParameter _ 'Y')
      (wordParameter _ 'Z')) = _
    rw [Spelling.words, hx, hy, hz]
    rfl

/-- A line that an instruction is written as reads back as that instruction, the coordinates of a
    move as their texts spell them. -/
theorem parse_text {i : Instruction} (hi : i.Writable) :
    Instruction.parse i.text = .ok i.reread := by
  rw [Instruction.parse, Instruction.text, String.toList_ofList]
  cases hs : i.spelling with
  | some s =>
    rw [chars_of_spelling hs, (sound_of_spelling hs).ofChars]
    exact ofCommand_spelling hi hs _
  | none =>
    cases i with
    | comment text => exact hi.elim
    | other text => exact hi.elim
    | move kind t => cases kind <;> exact absurd hs (Option.some_ne_none _)
    | _ => exact absurd hs (Option.some_ne_none _)

/-! ## Many lines -/

/-- The instructions that lines spell; a line that spells none is left out. -/
def instructionsOf (lines : List String) : List Instruction :=
  lines.filterMap fun line => (Instruction.parse line).toOption

/-- The lines of instructions that come back spell these. -/
theorem instructionsOf_map_text {is : List Instruction} (his : ∀ i ∈ is, i.Writable) :
    instructionsOf (is.map Instruction.text) = is.map Instruction.reread := by
  induction is with
  | nil => rfl
  | cons i is ih =>
    obtain ⟨hi, his⟩ := List.forall_mem_cons.1 his
    rw [List.map_cons, instructionsOf,
      List.filterMap_cons_some (b := i.reread) (by rw [parse_text hi]; rfl)]
    exact congrArg (i.reread :: ·) (ih his)

end Embroidery
