/-
  Lines of a text or of a file.

  `cutLines` cuts a list after each end mark, whatever the elements are: characters of a text or
  bytes of a file.  A last piece without an end mark is a line too, an empty one is none.
-/
namespace Embroidery

/-- The pieces between end marks, each without its mark and with whether it had one. -/
def cutLines {α : Type} (isEnd : α → Bool) : List α → List (List α × Bool)
  | [] => []
  | c :: cs =>
    if isEnd c then ([], true) :: cutLines isEnd cs
    else match cutLines isEnd cs with
      | [] => [([c], false)]
      | (piece, ended) :: rest => (c :: piece, ended) :: rest

/-- A list without one given element at its end. -/
def dropLastIf {α : Type} (isMark : α → Bool) (xs : List α) : List α :=
  match xs.getLast? with
  | some x => if isMark x then xs.dropLast else xs
  | none => xs

/-- The lines of a text: ended by a line feed, in front of which one carriage return is dropped. -/
def textLines (text : List Char) : List (List Char) :=
  (cutLines (· == '\n') text).map fun (piece, ended) =>
    if ended then dropLastIf (· == '\r') piece else piece

/-- The lines of a text. -/
def linesOf (text : String) : List String := (textLines text.toList).map String.ofList

/-- Lines as a text, each ended by a line feed. -/
def joinLines (lines : List String) : String :=
  String.join (lines.map (· ++ "\n"))

example : textLines "a\r\n\nb\r".toList = ["a".toList, [], "b\r".toList] := by decide

end Embroidery
