/-
  Lower case.

  Each character is taken to its lower-case form by itself, with two exceptions: the dotted capital
  I becomes two characters, and a capital sigma at the end of a word becomes the final sigma.  A
  word ends at a sigma when a cased character stands before it and none after it, case-ignorable
  characters between them not counting.
-/
import Embroidery.Text.Blank
import Embroidery.Text.LetterCase

namespace Embroidery

/-- The lower-case form of a character by itself. -/
def lowerChar (c : Char) : List Char :=
  if c = '\u0130' then ['i', '\u0307']
  else
    let run := lowerRuns.find? fun (first, last, step, _) =>
      decide (first ≤ c.toNat) && decide (c.toNat ≤ last) && (c.toNat - first) % step == 0
    match run with
    | some (_, _, _, shift) => [Char.ofNat (c.toNat + shift).toNat]
    | none => [c]

/-- The first character that is not case-ignorable is cased. -/
def meetsCased (cs : List Char) : Bool :=
  match cs.dropWhile (inRanges caseIgnorableRanges) with
  | [] => false
  | c :: _ => inRanges casedRanges c

/-- Lower case of the rest of a text, given what stands before it in reverse. -/
def lowerFrom (before : List Char) : List Char → List Char
  | [] => []
  | c :: cs =>
    let here :=
      if c = '\u03A3' then [if meetsCased before && !meetsCased cs then '\u03C2' else '\u03C3']
      else lowerChar c
    here ++ lowerFrom (c :: before) cs

def lowerText (text : String) : String := String.ofList (lowerFrom [] text.toList)

example : lowerText "ÉTÉ ΑΣ Σ" = "été ας σ" := by decide +kernel

end Embroidery
