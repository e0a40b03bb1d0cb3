/-
  What the program says.

  Results are lines of text.  A failure is a message with the messages of what lies behind it, from
  the nearest to the last; several of these are numbered.
-/
import Embroidery.Number.Digits
import Embroidery.Preview.Decoder
import Embroidery.Program.Generate

namespace Embroidery

/-! ## Results -/

def countText (n : Nat) : String := String.ofList (naturalChars n)

/-- A number in at least two columns. -/
def columnText (n : Nat) : String := if n < 10 then " " ++ countText n else countText n

/-- A length in machine units. -/
def lengthText (v : Binary64) : String := fixedText 2 v

def summaryLine (s : Summary) : String :=
  "Generated " ++ countText s.lineCount ++ " lines, " ++ countText s.stitchCount ++ " stitches, "
    ++ countText s.colorCount ++ " colour(s)"

def groupLine (g : ColorGroup) : String :=
  "  colour " ++ columnText (g.number + 1) ++ "  " ++ g.color.text ++ "  "
    ++ countText g.points.length ++ " point(s)"

def extentLine (b : Bounds) : String :=
  "  extent " ++ lengthText b.width ++ " x " ++ lengthText b.height
    ++ " (X " ++ lengthText b.minX ++ ".." ++ lengthText b.maxX
    ++ ", Y " ++ lengthText b.minY ++ ".." ++ lengthText b.maxY ++ ")"

/-- The lines of a preview: the totals, each group, and the box of all points if there are any. -/
def previewLines (p : Preview) : List String :=
  (countText p.groups.length ++ " colour group(s), " ++ countText p.pointCount ++ " point(s)")
    :: p.groups.map groupLine ++ (p.bounds.map extentLine).toList

/-! ## Failures -/

structure Failure where
  message : String
  causes : List String
deriving DecidableEq

/-- A text whose further lines are indented. -/
def indentLines (indent : String) (text : String) : String :=
  String.ofList (text.toList.flatMap fun c => if c = '\n' then '\n' :: indent.toList else [c])

/-- A number right in five columns. -/
def numberText (n : Nat) : String :=
  String.ofList (List.replicate (5 - (naturalChars n).length) ' ' ++ naturalChars n)

/-- The causes from a number on. -/
def numberedCauses (n : Nat) : List String → String
  | [] => ""
  | cause :: rest =>
    "\n" ++ numberText n ++ ": " ++ indentLines "       " cause ++ numberedCauses (n + 1) rest

def Failure.text (f : Failure) : String :=
  "Error: " ++ f.message ++
    (match f.causes with
      | [] => ""
      | [cause] => "\n\nCaused by:\n    " ++ indentLines "    " cause
      | causes => "\n\nCaused by:" ++ numberedCauses 0 causes) ++ "\n"

/-! ## Notices -/

def versionText : String := "stitchkit 0.4.0\n"

def usageLine : String := "Usage: stitchkit [OPTIONS] <COMMAND>"

def helpText : String := joinLines
  ["Embroidery pattern to machine G-code converter",
   "",
   usageLine,
   "",
   "Commands:",
   "  generate     Convert a stitch pattern into G-code",
   "  preview      Decode a G-code file and print its colour groups",
   "  init-config  Write the default configuration",
   "  help         Print this message",
   "",
   "Options:",
   "  -c, --config <CONFIG>  Configuration file (JSON or TOML); defaults to the user config",
   "  -h, --help             Print help",
   "  -V, --version          Print version"]

def misuseText : String := joinLines
  ["error: unexpected arguments", "", usageLine, "", "For more information, try '--help'."]

end Embroidery
