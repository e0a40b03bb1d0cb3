/-
  The instructions of one stitch event.

  The context of a program is what the machine is known to hold: its latches, the last stitch that
  was sewn, the running colour and the progress that was last reported.  `step` takes it from one
  event to the next and gives the instructions of the event.

    1. Any event but a stitch ends a run of stitches: the spindle stops, the tension goes off, and
       the last position goes back to the origin, which stands for none.
    2. The first stitch after the start, a trim or a colour change has the thread inserted.
    3. A stitch nearer to the last one than the clearance is moved to but not sewn.
    4. The first five stitches of a run are sewn slowly; the operator then trims the loose end.
-/
import Embroidery.Instruction.Basic
import Embroidery.Parameters
import Embroidery.Program.Survey

namespace Embroidery

/-- How long the machine is given to settle, in milliseconds. -/
def settleMillis : UInt32 := 500

/-- The number of slow stitches that anchor the thread at the start of a run. -/
def anchorStitches : Nat := 5

/-- What the machine is known to hold between two events. -/
structure Context where
  motorOn : Bool
  tensionOn : Bool
  threaded : Bool
  /-- Stitches sewn in the present run, counted up to the change of speed; the trim after the anchor
      counts as one. -/
  runCount : Nat
  /-- The last stitch sewn in the run; the origin stands for none. -/
  last : Point
  color : Nat
  /-- The progress last reported. -/
  reported : Int
deriving DecidableEq

namespace Context

/-- Before the first event. -/
def start : Context where
  motorOn := false
  tensionOn := false
  threaded := false
  runCount := 0
  last := origin
  color := 1
  reported := 0

/-- Instructions together with the context after them. -/
abbrev After := Context × List Instruction

/-- Switch the tension and let it settle, unless it is so already. -/
def setTension (on : Bool) (c : Context) : After :=
  if c.tensionOn = on then (c, [])
  else ({ c with tensionOn := on }, [.tension on, .dwell settleMillis])

/-- Report the progress when it differs enough from the last report. -/
def report (p : Parameters) (total : Nat) (index : Nat) (c : Context) : After :=
  let progress := remap (Binary64.ofNat index) 0 (Binary64.ofNat total) 0 100
  if p.progressStep.toNat ≤ (progress - c.reported).natAbs then
    ({ c with reported := progress }, [.progress (UInt8.ofNat (max 0 (min 100 progress)).toNat)])
  else (c, [])

/-- End a run of stitches. -/
def endRun (c : Context) : After :=
  let stop := if c.motorOn then [Instruction.spindleStop] else []
  let (c, slack) := setTension false { c with motorOn := false }
  ({ c with runCount := 0, last := origin }, stop ++ slack)

/-- Move to the stitch and have the thread inserted there.  The thread is slack afterwards. -/
def insertThread (free : Instruction) (c : Context) : After :=
  let (c, slack) := setTension false c
  ({ c with threaded := true, tensionOn := false }, free :: slack ++ [.pause .threadInserted])

/-- The accelerations with that of the needle axis, where accelerations are set. -/
def accelerate (p : Parameters) (z : Option UInt32) : List Instruction :=
  match p.acceleration with
  | some a => [.acceleration (some a.x) (some a.y) z]
  | none => []

/-- One needle cycle at the speed of the run so far, after the acceleration where the speed
    changes. -/
def cycle (p : Parameters) (c : Context) : After :=
  if c.runCount ≤ anchorStitches then
    ({ c with runCount := c.runCount + 1, motorOn := true },
      (if c.runCount = 0 then accelerate p p.zLowAcceleration else [])
        ++ [.needleCycle (some p.zLowSpeed)])
  else if c.runCount = anchorStitches + 1 then
    ({ c with runCount := c.runCount + 1, motorOn := true },
      accelerate p p.zHighAcceleration ++ [.needleCycle (some p.zHighSpeed)])
  else ({ c with motorOn := true }, [.needleCycle (some p.zHighSpeed)])

/-- Have the loose end trimmed once the anchor is complete. -/
def trimAnchor (c : Context) : After :=
  if c.runCount = anchorStitches then ({ c with runCount := c.runCount + 1 }, [.pause .trim])
  else (c, [])

/-- Sew a stitch. -/
def sew (p : Parameters) (spot : Point) (c : Context) : After :=
  let (c, tight) := setTension true { c with last := spot }
  let (c, cycled) := cycle p c
  let (c, trimmed) := trimAnchor c
  (c, tight ++ .move .sewing (.at spot p.stitchSpeed) :: cycled ++ trimmed)

/-- The stitch is far enough from the last one of the run, or is the first. -/
def isClear (p : Parameters) (spot : Point) (c : Context) : Bool :=
  c.last.isOrigin || decide (p.effectiveClearance ≤ distance c.last spot)

/-- The instructions of a stitch. -/
def stitch (p : Parameters) (spot : Point) (free : Instruction) (c : Context) : After :=
  let (c, inserted) := if c.threaded then (c, []) else insertThread free c
  if isClear p spot c then
    let (c, sewn) := sew p spot c
    (c, inserted ++ sewn)
  else (c, inserted ++ [free])

/-- The sub-code that starts the next colour. -/
def nextColor (c : Context) : UInt8 := UInt8.ofNat (min (c.color + 1) maxColor)

/-- The instructions that belong to the kind of an event. -/
def act (p : Parameters) (kind : StitchKind) (spot : Point) (c : Context) : After :=
  let free := Instruction.move .free (.at spot p.jumpSpeed)
  match kind with
  | .jump => (c, [free])
  | .finish => (c, [free])
  | .stitch => stitch p spot free c
  | .trim => ({ c with threaded := false }, [free, .pause .trim])
  | .colorChange =>
    ({ c with color := c.color + 1, threaded := false }, [.pause (.colorStart c.nextColor), free])

/-- One event of a pattern with `total` events. -/
def step (p : Parameters) (total : Nat) (c : Context) (e : StitchEvent) : After :=
  let (c, reported) := report p total e.index c
  let (c, ended) := if e.kind = .stitch then (c, []) else endRun c
  let (c, acted) := act p e.kind (e.position p.scalingFactor) c
  (c, reported ++ ended ++ acted)

/-- The context after a list of events and their instructions. -/
def run (p : Parameters) (total : Nat) : Context → List StitchEvent → After
  | c, [] => (c, [])
  | c, e :: rest =>
    let (c, first) := step p total c e
    let (c, others) := run p total c rest
    (c, first ++ others)

end Context
end Embroidery
