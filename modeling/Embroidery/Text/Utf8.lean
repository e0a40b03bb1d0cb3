/-
  Reading bytes as text where some of them may not be.

  `scan` splits bytes into characters and malformed parts.  A malformed part is the longest start of
  a character's encoding that the next byte does not continue, or a single byte that starts none.
  In text it stands as one U+FFFD.
-/
namespace Embroidery

/-- A byte inside an encoded character, after its first. -/
def isContinuation (b : UInt8) : Bool := 0x80 ≤ b && b ≤ 0xBF

/-- The second bytes that may follow a first byte of three.  The narrower ranges keep out longer
    encodings of smaller characters and the surrogates. -/
def secondOfThree (first second : UInt8) : Bool :=
  if first = 0xE0 then 0xA0 ≤ second && second ≤ 0xBF
  else if first = 0xED then 0x80 ≤ second && second ≤ 0x9F
  else isContinuation second

/-- The second bytes that may follow a first byte of four. -/
def secondOfFour (first second : UInt8) : Bool :=
  if first = 0xF0 then 0x90 ≤ second && second ≤ 0xBF
  else if first = 0xF4 then 0x80 ≤ second && second ≤ 0x8F
  else isContinuation second

/-- A character from the payload bits of its first byte and of the bytes after it. -/
def assemble (first : Nat) (rest : List UInt8) : Char :=
  Char.ofNat (rest.foldl (fun v b => 64 * v + (b.toNat - 0x80)) first)

/-- The characters and malformed parts (`none`) of a list of bytes. -/
def scan : List UInt8 → List (Option Char)
  | [] => []
  | a :: rest =>
    if a < 0x80 then some (Char.ofNat a.toNat) :: scan rest
    else if 0xC2 ≤ a && a ≤ 0xDF then
      match rest with
      | b :: rest' =>
        if isContinuation b then some (assemble (a.toNat - 0xC0) [b]) :: scan rest'
        else none :: scan (b :: rest')
      | [] => [none]
    else if 0xE0 ≤ a && a ≤ 0xEF then
      match rest with
      | b :: rest' =>
        if secondOfThree a b then
          match rest' with
          | c :: rest'' =>
            if isContinuation c then some (assemble (a.toNat - 0xE0) [b, c]) :: scan rest''
            else none :: scan (c :: rest'')
          | [] => [none]
        else none :: scan (b :: rest')
      | [] => [none]
    else if 0xF0 ≤ a && a ≤ 0xF4 then
      match rest with
      | b :: rest' =>
        if secondOfFour a b then
          match rest' with
          | c :: rest'' =>
            if isContinuation c then
              match rest'' with
              | d :: rest''' =>
                if isContinuation d then some (assemble (a.toNat - 0xF0) [b, c, d]) :: scan rest'''
                else none :: scan (d :: rest''')
              | [] => [none]
            else none :: scan (c :: rest'')
          | [] => [none]
        else none :: scan (b :: rest')
      | [] => [none]
    else none :: scan rest

/-- Bytes as characters, each malformed part as U+FFFD. -/
def lossyChars (bytes : List UInt8) : List Char := (scan bytes).map (·.getD '\uFFFD')

/-- Bytes as text, each malformed part as U+FFFD. -/
def lossyText (bytes : List UInt8) : String := String.ofList (lossyChars bytes)

example : lossyChars [0x61, 0xE2, 0x82, 0x62, 0xFF] = ['a', '\uFFFD', 'b', '\uFFFD'] := by decide

end Embroidery
