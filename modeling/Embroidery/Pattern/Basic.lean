/-
  Stitch patterns.

  A pattern is a list of stitch events with an optional name.  Positions are in pattern units.  A
  pattern is sound when every coordinate is finite and the indices rise strictly (`Pattern.check`).
-/
import Embroidery.Number.Digits

namespace Embroidery

/-! ## Events -/

/-- What happens at an event: a relocation, a needle penetration, the start of the next colour, a
    cut of the thread, the last relocation. -/
inductive StitchKind where
  | jump
  | stitch
  | colorChange
  | trim
  | finish
deriving DecidableEq

structure StitchEvent where
  index : Nat
  x : Binary64
  y : Binary64
  kind : StitchKind
deriving DecidableEq

/-- Both coordinates are finite. -/
def StitchEvent.isFinite (e : StitchEvent) : Bool := e.x.isFinite && e.y.isFinite

/-! ## Patterns -/

structure Pattern where
  name : Option String
  events : List StitchEvent
deriving DecidableEq

/-- What makes a pattern unsound. -/
inductive PatternFault where
  | notFinite (index : Nat)
  | outOfOrder (index previous : Nat)
deriving DecidableEq

def PatternFault.message : PatternFault → String
  | .notFinite index =>
    "Stitch " ++ String.ofList (naturalChars index) ++ " has a non-finite coordinate"
  | .outOfOrder index previous =>
    "Stitch index " ++ String.ofList (naturalChars index) ++ " does not follow index "
      ++ String.ofList (naturalChars previous)

/-- The first fault of a list of events that follow an event with index `previous`, if there was
    one. -/
def checkEvents (previous : Option Nat) : List StitchEvent → Option PatternFault
  | [] => none
  | e :: rest =>
    if !e.isFinite then some (.notFinite e.index)
    else match previous with
      | some p =>
        if e.index ≤ p then some (.outOfOrder e.index p) else checkEvents (some e.index) rest
      | none => checkEvents (some e.index) rest

/-- The first fault of a pattern. -/
def Pattern.fault? (p : Pattern) : Option PatternFault := checkEvents none p.events

/-- A pattern without a fault. -/
def Pattern.check (p : Pattern) : Except PatternFault Pattern :=
  match p.fault? with
  | some fault => .error fault
  | none => .ok p

end Embroidery
