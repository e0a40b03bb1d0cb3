/-
  One program in every sink.

  A program is made line by line, and what a sink does with a line is its own affair: it collects
  lines, adds them to a text or writes them to an artifact.  The lines are the same for all of them.
  A sink that refuses every line behind the first so many holds these lines and no other
  (`generateInto_limited`), wherever in the program that falls; one that refuses none holds them
  all.  Where there is no program no sink is given a line (`sinks_agree`).

  The lines of an artifact are in its file once it is finished, which is read to prove it.
-/
import Embroidery.Proofs.Program.Delivery
import Embroidery.Proofs.Session.Production

namespace Embroidery

section
variable {held cause : Type} {p : Parameters} {pattern : Pattern}

/-! ## Sinks of one function -/

/-- A sink with room for so many lines is given these lines of the program, and the error is its
    own. -/
theorem generateInto_limited (hp : p.check = .ok ())
    (hcolors : pattern.events.countP (·.kind = .colorChange) ≤ 98) (f : held → String → held)
    (refusal : cause) (h : held) (room : Nat) :
    generateInto ((Sink.following f).limited refusal) (h, room) p pattern =
      ((((programLines p pattern).take room).foldl f h, room - (programLines p pattern).length),
        if room < (programLines p pattern).length then .error (.sink refusal)
        else .ok (programSummary p pattern)) := by
  rw [generateInto_of_few hp hcolors, Sink.takeAll_limited]
  refine congrArg (Prod.mk _) ?_
  by_cases hroom : room < (programLines p pattern).length
  · rw [if_pos hroom, if_pos hroom]
  · rw [if_neg hroom, if_neg hroom]

namespace OpenArtifact

/-- A finished artifact has the lines of the program in its file. -/
theorem read_of_generateInto (hp : p.check = .ok ())
    (hcolors : pattern.events.countP (·.kind = .colorChange) ≤ 98) {folder : Path}
    {w w' : Workspace} {a : OpenArtifact} (ha : (create folder).run w = (.ok a, w')) :
    ∃ after w'', generateInto (sink : Sink OpenArtifact cause) a p pattern =
        (after, .ok (programSummary p pattern)) ∧
      after.lineCount = (programLines p pattern).length ∧
      after.finish.run w' = (.ok ⟨a.path⟩, w'') ∧
      w''.read a.path = .ok (joinLines (programLines p pattern)).toUTF8 := by
  rcases run_create folder w with ⟨why, hcreate, -⟩ | ⟨loc, path, after, hcreate, -, hadds⟩
  · rw [ha] at hcreate
    cases (Prod.mk.inj hcreate).1
  · rw [ha] at hcreate
    obtain ⟨hblank, rfl⟩ := Prod.mk.inj hcreate
    obtain rfl := Except.ok.inj hblank
    have hwritten : generateInto (sink : Sink OpenArtifact cause) ⟨path, "", 0⟩ p pattern = _ :=
      generateInto_following addLine _ hp hcolors
    rw [foldl_addLine, String.empty_append, Nat.zero_add] at hwritten
    obtain ⟨w'', hfinish, hadds'⟩ := run_finish
      (a := ⟨path, joinLines (programLines p pattern), (programLines p pattern).length⟩) hadds
    exact ⟨_, w'', hwritten, rfl, hfinish, hadds'.read⟩

end OpenArtifact

end

/-- **Sinks agree.**  Take sound parameters.  If there are lines, a sink that refuses every line
    behind the first so many holds just these and fails exactly if there are more; one for text
    holds all of them, each ended by a line feed, and so does the file of an artifact that is
    finished behind them, with the same summary.  If there are none, it is because of too many
    colours, and every sink keeps what it held and gives that error. -/
theorem sinks_agree {p : Parameters} (hp : p.check = .ok ()) (pattern : Pattern) :
    (∀ lines, generate p pattern = .ok lines → ∃ summary : Summary,
      summary.lineCount = lines.length ∧
      (∀ {cause : Type} (refusal : cause) (n : Nat),
        generateInto (Sink.lines.limited refusal) (#[], n) p pattern =
          (((lines.take n).toArray, n - lines.length),
            if n < lines.length then .error (.sink refusal) else .ok summary)) ∧
      (∀ {cause : Type}, generateInto (Sink.text : Sink String cause) "" p pattern =
        (joinLines lines, .ok summary)) ∧
      ∀ {cause : Type} {folder : Path} {w w' : Workspace} {a : OpenArtifact},
        (OpenArtifact.create folder).run w = (.ok a, w') → ∃ after w'',
          generateInto (OpenArtifact.sink : Sink OpenArtifact cause) a p pattern =
            (after, .ok summary) ∧
          after.lineCount = lines.length ∧ after.finish.run w' = (.ok ⟨a.path⟩, w'') ∧
          w''.read a.path = .ok (joinLines lines).toUTF8) ∧
    ∀ error, generate p pattern = .error error → ∃ count, error = .tooManyColors count ∧
      ∀ {held cause : Type} (sink : Sink held cause) (h : held),
        generateInto sink h p pattern = (h, .error (.tooManyColors count)) := by
  constructor
  · intro lines h
    obtain ⟨-, hcolors, rfl⟩ := of_generate h
    refine ⟨programSummary p pattern, rfl, ?_, ?_, OpenArtifact.read_of_generateInto hp hcolors⟩
    · intro cause refusal n
      rw [Sink.lines, generateInto_limited hp hcolors, List.foldl_push_eq_append',
        Array.empty_append]
    · intro cause
      have htext : generateInto (Sink.text : Sink String cause) "" p pattern = _ :=
        generateInto_following (fun text line => text ++ line ++ "\n") "" hp hcolors
      rw [foldl_addLine, String.empty_append] at htext
      exact htext
  · intro error h
    obtain ⟨hmany, rfl⟩ := of_generate_error hp h
    exact ⟨_, rfl, fun sink h => generateInto_of_many hp hmany sink h⟩

/-- A stitch in a sink with room for three lines. -/
theorem sinks_agree_on_three_lines :
    let p : Parameters := {}
    let pattern : Pattern := ⟨none, [⟨0, 10, 10, .stitch⟩]⟩
    p.check = .ok () ∧ ∃ lines, generate p pattern = .ok lines ∧
      generateInto (Sink.lines.limited ()) (#[], 3) p pattern =
        ((#["M17", "M73 P0", "G4 P500"], 0), .error (.sink ())) := by
  intro p pattern
  have hgenerate : generate p pattern = .ok (programLines p pattern) :=
    generate_eq check_default (by decide)
  obtain ⟨summary, -, hlimited, -⟩ := (sinks_agree check_default pattern).1 _ hgenerate
  have hlength : 3 < (programLines p pattern).length := by decide +kernel
  have htake : (programLines p pattern).take 3 = ["M17", "M73 P0", "G4 P500"] := by decide +kernel
  refine ⟨check_default, _, hgenerate, (hlimited () 3).trans ?_⟩
  rw [if_pos hlength, htake, Nat.sub_eq_zero_of_le (Nat.le_of_lt hlength)]

end Embroidery
