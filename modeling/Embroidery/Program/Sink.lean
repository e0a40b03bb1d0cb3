/-
  Where the lines of a program go.

  A sink takes one line after the other and may refuse one.  After a refusal it is asked for no
  further line.
-/
namespace Embroidery

/-- A destination for lines.  For what it holds and a line, `take` is what it holds afterwards, and
    why the line was refused if it was. -/
structure Sink (held cause : Type) where
  take : held → String → held × Option cause

namespace Sink

variable {held cause : Type}

/-- Hand lines over until one is refused. -/
def takeAll (sink : Sink held cause) : held → List String → held × Option cause
  | h, [] => (h, none)
  | h, line :: rest =>
    match sink.take h line with
    | (h, none) => takeAll sink h rest
    | (h, some why) => (h, some why)

/-- A sink that refuses no line: each line changes what is held by a function. -/
def following (f : held → String → held) : Sink held cause := ⟨fun h line => (f h line, none)⟩

/-- Collects the lines. -/
def lines : Sink (Array String) cause := following Array.push

/-- Collects the lines as one text, each ended by a line feed. -/
def text : Sink String cause := following fun h line => h ++ line ++ "\n"

/-- Passes on the first `room` lines and refuses the next. -/
def limited (sink : Sink held cause) (refusal : cause) : Sink (held × Nat) cause :=
  ⟨fun (h, room) line =>
    match room with
    | 0 => ((h, 0), some refusal)
    | room + 1 =>
      let (h, refused) := sink.take h line
      ((h, room), refused)⟩

end Sink
end Embroidery
