/-
  Preview colours.

  A palette gives the colour of each group by its number.  The hue cycle walks once around the hues,
  from red backwards, in as many steps as there are colours.
-/
import Embroidery.Number.Binary64

namespace Embroidery

structure Color where
  red : UInt8
  green : UInt8
  blue : UInt8
deriving DecidableEq

namespace Color

/-- A share between 0 and 1 as one of 256 levels. -/
def level (share : Binary64) : UInt8 := (share.clamp 0 1 * 255).round.toUInt8

/-- The colour of a hue (one turn is 1), a saturation and a value.  The turn has six sectors; within
    each, two channels are constant and one moves. -/
def ofHSV (hue saturation value : Binary64) : Color :=
  let turn := hue.fraction * 6
  let sector := turn.floor
  let f := turn - sector
  let p := value * (1 - saturation)
  let q := value * (1 - f * saturation)
  let t := value * (1 - (1 - f) * saturation)
  let (r, g, b) := match sector.toUInt8.toNat with
    | 0 => (value, t, p)
    | 1 => (q, value, p)
    | 2 => (p, value, t)
    | 3 => (p, q, value)
    | 4 => (t, p, value)
    | _ => (value, p, q)
  ⟨level r, level g, level b⟩

/-- Two hexadecimal digits. -/
def hexPair (n : UInt8) : List Char :=
  [Nat.digitChar (n.toNat / 16), Nat.digitChar (n.toNat % 16)]

/-- The colour as `#` and six hexadecimal digits. -/
def text (c : Color) : String :=
  String.ofList ('#' :: (hexPair c.red ++ hexPair c.green ++ hexPair c.blue))

end Color

/-- The colour of each group, by its number. -/
abbrev Palette := Nat → Color

/-- As many hues as there are colours, at least one. -/
def hueSteps (colors : Nat) : Nat := max colors 1

/-- The palette that walks once around the hues. -/
def hueCycle (colors : Nat) : Palette := fun group =>
  Color.ofHSV (1 - Binary64.ofNat group / Binary64.ofNat (hueSteps colors)) 1 1

example : (hueCycle 3 1).text = "#0000ff" := by decide +kernel

end Embroidery
