/-
  The whole program of a pattern.

  A program is a header, the instructions of the events in order, and a footer.  It is written only
  if the parameters are sound and the pattern has at most 99 colours; otherwise no line is written.
-/
import Embroidery.Instruction.Printer
import Embroidery.Program.Sink
import Embroidery.Program.Step
import Embroidery.Text.Lowercase

namespace Embroidery

/-! ## The instructions -/

/-- How long the machine waits at the last corner, in milliseconds. -/
def lastCornerMillis : UInt32 := 1000

/-- A free move and a wait behind it. -/
def visit (p : Parameters) (spot : Point) (millis : UInt32) : List Instruction :=
  [.move .free (.at spot p.jumpSpeed), .dwell millis]

/-- A visit to each of the points, with the longer wait at the last. -/
def visitAll (p : Parameters) : List Point → List Instruction
  | [] => []
  | [c] => visit p c lastCornerMillis
  | c :: rest => visit p c settleMillis ++ visitAll p rest

/-- What comes before the first event. -/
def programHeader (p : Parameters) (survey : Survey) (name : Option String) : List Instruction :=
  let title := match name with
    | some name => [Instruction.comment (lowerText name)]
    | none => []
  let corners := match survey.bounds with
    | some b => if p.visitCorners then visitAll p b.corners else []
    | none => []
  title ++ [.motors true, .progress 0] ++ Context.accelerate p p.zLowAcceleration
    ++ [.dwell settleMillis] ++ corners ++ visit p origin settleMillis ++ [.pause (.colorStart 1)]

/-- What comes after the last event. -/
def programFooter : List Instruction := [.spindleStop, .motors false]

/-- The instructions of a pattern, whatever its number of colours. -/
def programOf (p : Parameters) (pattern : Pattern) : List Instruction :=
  programHeader p (Survey.ofEvents p.scalingFactor pattern.events) pattern.name
    ++ (Context.run p pattern.events.length .start pattern.events).2 ++ programFooter

/-! ## Writing it -/

/-- What was written. -/
structure Summary where
  colorCount : Nat
  lineCount : Nat
  stitchCount : Nat
  bounds : Option Bounds
deriving DecidableEq

/-- Why no whole program was written. -/
inductive GenerateError (cause : Type) where
  | parameters (fault : ParameterFault)
  | tooManyColors (count : Nat)
  | sink (why : cause)

def GenerateError.message {cause : Type} (describe : cause → String) :
    GenerateError cause → String
  | .parameters fault => "Parameter error: " ++ fault.message
  | .tooManyColors count =>
    "Pattern has " ++ String.ofList (naturalChars count) ++ " colours, at most "
      ++ String.ofList (naturalChars maxColor) ++ " are supported"
  | .sink why => "I/O error: " ++ describe why

/-- Write the program of a pattern to a sink.  The first part of the answer is what the sink holds
    afterwards, also when the program could not be written. -/
def generateInto {held cause : Type} (sink : Sink held cause) (h : held) (p : Parameters)
    (pattern : Pattern) : held × Except (GenerateError cause) Summary :=
  match p.check with
  | .error fault => (h, .error (.parameters fault))
  | .ok () =>
    let survey := Survey.ofEvents p.scalingFactor pattern.events
    if maxColor < survey.colorCount then (h, .error (.tooManyColors survey.colorCount))
    else
      let lines := (programOf p pattern).map Instruction.text
      match sink.takeAll h lines with
      | (h, some why) => (h, .error (.sink why))
      | (h, none) =>
        (h, .ok ⟨survey.colorCount, lines.length, survey.stitchCount, survey.bounds⟩)

/-- The lines of the program of a pattern. -/
def generate (p : Parameters) (pattern : Pattern) :
    Except (GenerateError Empty) (List String) :=
  let (lines, result) := generateInto (Sink.lines : Sink (Array String) Empty) #[] p pattern
  result.map fun _ => lines.toList

end Embroidery
