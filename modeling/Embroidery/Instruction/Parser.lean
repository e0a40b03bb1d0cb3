/-
  Reading a line as an instruction.

  A comment runs from the first `;` or `(` to the end of the line.  What is left is cut into tokens;
  a token that starts with a letter is a word, with the letter in upper case and the finite number
  that follows it, if it is one.  All other tokens are passed over.

  The first word is the command and must carry a number.  A parameter is the first word behind it
  with that letter; if it carries no number the parameter counts as absent.
-/
import Embroidery.Number.Decimal
import Embroidery.Text.Blank
import Embroidery.Instruction.Basic

namespace Embroidery

/-! ## Words -/

/-- A letter with the number behind it. -/
structure Word where
  letter : Char
  value : Option Binary64
deriving DecidableEq

/-- A line without its comment. -/
def stripComment (line : List Char) : List Char := line.takeWhile fun c => c != ';' && c != '('

/-- The word that a token spells, if it starts with a letter. -/
def Word.ofToken : List Char → Option Word
  | [] => none
  | c :: rest =>
    if c.isAlpha then some ⟨c.toUpper, (readNumber rest).filter Binary64.isFinite⟩ else none

/-- The words of a line. -/
def wordsOf (line : List Char) : List Word := (tokens (stripComment line)).filterMap Word.ofToken

/-- The value of the first word with a letter. -/
def parameter (words : List Word) (letter : Char) : Option Binary64 :=
  (words.find? (·.letter = letter)).bind Word.value

/-- A number as a machine word, the fraction dropped; absent if it is out of range. -/
def asMachineWord (value : Binary64) : Option UInt32 :=
  if 0 ≤ value ∧ value ≤ 4294967295 then some value.toUInt32 else none

/-- A parameter that is a machine word. -/
def wordParameter (words : List Word) (letter : Char) : Option UInt32 :=
  (parameter words letter).bind asMachineWord

/-! ## Lines -/

/-- Why a line is no instruction. -/
inductive LineError where
  | empty
  | noCommandNumber (letter : Char)
  | unexpectedCommand (letter : Char)
  | missingParameter (letter : Char)
deriving DecidableEq

/-- The message for a line that is no instruction. -/
def LineError.message : LineError → String
  | .empty => "Empty command"
  | .noCommandNumber letter =>
    "Invalid syntax: '" ++ String.singleton letter ++ "' has no command number"
  | .unexpectedCommand letter =>
    "Invalid syntax: unexpected command word '" ++ String.singleton letter ++ "'"
  | .missingParameter letter => "Missing parameter '" ++ String.singleton letter ++ "'"

/-- The target that the parameters of a move name. -/
def Target.ofWords (words : List Word) : Target where
  x := parameter words 'X'
  y := parameter words 'Y'
  feed := wordParameter words 'F'

/-- A percentage held between 0 and 100, the fraction dropped. -/
def percentOf (value : Binary64) : UInt8 := (value.clamp 0 100).toUInt8

namespace Instruction

/-- The instruction of a `G` code, if it is in the table. -/
def ofMotionCode (number : Nat) (words : List Word) : Option Instruction :=
  match number with
  | 0 => some (.move .free (Target.ofWords words))
  | 1 => some (.move .sewing (Target.ofWords words))
  | 4 => some (.dwell ((wordParameter words 'P').getD 0))
  | _ => none

/-- The instruction of an `M` code, if it is in the table. -/
def ofMachineCode (number : Nat) (words : List Word) : Except LineError (Option Instruction) :=
  match number with
  | 0 => .ok (some (.pause (PauseCode.ofValue ((parameter words 'C').getD 0))))
  | 3 => .ok (some (.needleCycle (wordParameter words 'S')))
  | 5 => .ok (some .spindleStop)
  | 17 => .ok (some (.motors true))
  | 18 => .ok (some (.motors false))
  | 41 => .ok (some (.tension false))
  | 42 => .ok (some (.tension true))
  | 73 =>
    match parameter words 'P' with
    | some percent => .ok (some (.progress (percentOf percent)))
    | none => .error (.missingParameter 'P')
  | 201 =>
    .ok (some (.acceleration (wordParameter words 'X') (wordParameter words 'Y')
      (wordParameter words 'Z')))
  | _ => .ok none

/-- The instruction of a command and its parameters; a code outside the table is kept as
    `verbatim`. -/
def ofCommand (letter : Char) (number : Nat) (words : List Word) (verbatim : List Char) :
    Except LineError Instruction :=
  if letter = 'G' then
    .ok ((ofMotionCode number words).getD (.other (String.ofList verbatim)))
  else if letter = 'M' then
    (ofMachineCode number words).map (·.getD (.other (String.ofList verbatim)))
  else .error (.unexpectedCommand letter)

/-- Read a line that is given as characters. -/
def ofChars (line : List Char) : Except LineError Instruction :=
  let trimmed := trim line
  match trimmed with
  | ';' :: text => .ok (.comment (String.ofList (trim text)))
  | _ =>
    match wordsOf trimmed with
    | [] => .error .empty
    | command :: words =>
      match command.value.bind asMachineWord with
      | none => .error (.noCommandNumber command.letter)
      | some number =>
        ofCommand command.letter number.toNat words (trim (stripComment trimmed))

/-- Read a line. -/
def parse (line : String) : Except LineError Instruction := ofChars line.toList

end Instruction

example : (Instruction.parse "g1 x1.5 (here)").toOption
    = some (.move .sewing ⟨some (3 / 2), none, none⟩) := by decide +kernel
example : (Instruction.parse "X1").toOption = none := by decide +kernel

end Embroidery
