/-
  How much of a program a sink is given.

  With sound parameters there are two cases.  A pattern with more than 98 colour changes is turned
  down before the first line (`generateInto_of_many`).  Any other is handed over line by line, and
  only the sink can end that (`generateInto_of_few`).  One that has room for so many lines then
  holds what those lines make of it, and refuses exactly if there are more (`takeAll_limited`).
-/
import Embroidery.Proofs.Program.Written

namespace Embroidery

/-- The summary of the program of a pattern. -/
def programSummary (p : Parameters) (pattern : Pattern) : Summary where
  colorCount := 1 + pattern.events.countP (·.kind = .colorChange)
  lineCount := (programLines p pattern).length
  stitchCount := pattern.events.countP (·.kind = .stitch)
  bounds := Bounds.ofPoints (pattern.events.map (StitchEvent.position p.scalingFactor))

section
variable {held cause : Type} {p : Parameters} {pattern : Pattern}

/-- Where there are too many colours, a sink is given nothing. -/
theorem generateInto_of_many (hp : p.check = .ok ())
    (hcolors : 98 < pattern.events.countP (·.kind = .colorChange)) (sink : Sink held cause)
    (h : held) :
    generateInto sink h p pattern =
      (h, .error (.tooManyColors (1 + pattern.events.countP (·.kind = .colorChange)))) := by
  have hmax : maxColor < (Survey.ofEvents p.scalingFactor pattern.events).colorCount := by
    show 99 < 1 + pattern.events.countP (·.kind = .colorChange)
    omega
  unfold generateInto
  rw [hp]
  dsimp only
  rw [if_pos hmax]
  rfl

/-- Otherwise it is given the lines of the program until it refuses one. -/
theorem generateInto_of_few (hp : p.check = .ok ())
    (hcolors : pattern.events.countP (·.kind = .colorChange) ≤ 98) (sink : Sink held cause)
    (h : held) :
    generateInto sink h p pattern =
      ((sink.takeAll h (programLines p pattern)).1,
        match (sink.takeAll h (programLines p pattern)).2 with
        | some why => .error (.sink why)
        | none => .ok (programSummary p pattern)) := by
  have hmax : ¬maxColor < (Survey.ofEvents p.scalingFactor pattern.events).colorCount := by
    show ¬99 < 1 + pattern.events.countP (·.kind = .colorChange)
    omega
  unfold generateInto
  rw [hp]
  dsimp only
  rw [if_neg hmax, programSummary, programLines]
  rcases sink.takeAll h ((programOf p pattern).map Instruction.text) with ⟨after, _ | why⟩ <;> rfl

/-- Without a program, there are too many colours. -/
theorem of_generate_error {error : GenerateError Empty} (hp : p.check = .ok ())
    (h : generate p pattern = .error error) :
    98 < pattern.events.countP (·.kind = .colorChange) ∧
      error = .tooManyColors (1 + pattern.events.countP (·.kind = .colorChange)) := by
  by_cases hcolors : pattern.events.countP (·.kind = .colorChange) ≤ 98
  · rw [generate_eq hp hcolors] at h
    exact nomatch h
  · have hmany : 98 < pattern.events.countP (·.kind = .colorChange) := by omega
    rw [generate, generateInto_of_many hp hmany] at h
    exact ⟨hmany, (Except.error.inj h).symm⟩

end

namespace Sink

variable {held cause : Type}

/-- A sink with room for so many lines takes these, and refuses if there are more. -/
theorem takeAll_limited (f : held → String → held) (refusal : cause) (h : held) (room : Nat)
    (lines : List String) :
    ((following f).limited refusal).takeAll (h, room) lines =
      (((lines.take room).foldl f h, room - lines.length),
        if room < lines.length then some refusal else none) := by
  induction lines generalizing h room with
  | nil => rw [List.take_nil, List.length_nil, if_neg (Nat.not_lt_zero room)]; rfl
  | cons line rest ih =>
    cases room with
    | zero =>
      rw [List.length_cons, if_pos (Nat.zero_lt_succ rest.length), Nat.zero_sub]
      rfl
    | succ room =>
      show ((following f).limited refusal).takeAll (f h line, room) rest = _
      rw [ih, List.length_cons, Nat.add_sub_add_right]
      simp only [Nat.add_lt_add_iff_right]
      rfl

end Sink
end Embroidery
