/-
  Blank characters, trimming and tokens.

  A character is blank when it has the Unicode property White_Space: 25 characters in ten ranges.
  `trim` drops blanks at both ends and `tokens` are the maximal runs of characters that are not
  blank.
-/
namespace Embroidery

/-- Membership in a list of closed ranges of code points. -/
def inRanges (ranges : List (Nat × Nat)) (c : Char) : Bool :=
  ranges.any fun (first, last) => decide (first ≤ c.toNat) && decide (c.toNat ≤ last)

/-- The code points with the property White_Space. -/
def blankRanges : List (Nat × Nat) :=
  [(0x09, 0x0D), (0x20, 0x20), (0x85, 0x85), (0xA0, 0xA0), (0x1680, 0x1680), (0x2000, 0x200A),
   (0x2028, 0x2029), (0x202F, 0x202F), (0x205F, 0x205F), (0x3000, 0x3000)]

def isBlank (c : Char) : Bool := inRanges blankRanges c

/-- Every character that core counts as white space is blank. -/
theorem isBlank_of_isWhitespace {c : Char} (h : c.isWhitespace = true) : isBlank c = true := by
  simp [Char.isWhitespace] at h
  rcases h with ((h | h) | h) | h <;> subst h <;> decide

/-- A text without the blanks in front. -/
def trimStart (cs : List Char) : List Char := cs.dropWhile isBlank

/-- A text without the blanks behind. -/
def trimEnd (cs : List Char) : List Char := (cs.reverse.dropWhile isBlank).reverse

/-- A text without the blanks at its ends. -/
def trim (cs : List Char) : List Char := trimEnd (trimStart cs)

/-- Put a character in front of the first token. -/
def growFirst (c : Char) : List (List Char) → List (List Char)
  | [] => [[c]]
  | t :: rest => (c :: t) :: rest

/-- The maximal runs of characters that are not blank, in order. -/
def tokens : List Char → List (List Char)
  | [] => []
  | c :: cs =>
    if isBlank c then tokens cs
    else match cs with
      | [] => [[c]]
      | d :: _ => if isBlank d then [c] :: tokens cs else growFirst c (tokens cs)

example : tokens "  G1\tX2 ".toList = ["G1".toList, "X2".toList] := by decide
example : trim " a b\u00a0".toList = "a b".toList := by decide

end Embroidery
