/-
  How colours are numbered.

  Colours are counted three times: in the pattern before anything is written, in the context while
  it is, and in the lines by whoever reads them.  The context caps its number at the last one that
  a pause can start, but a pattern that would come to the cap is turned down before its first line,
  so a program starts the colours from one up to the number in its summary, each once
  (`startedColors_programLines`).

  In the text of a program the title is a line like any other, and may be several.  A name without
  a line feed starts no colour; otherwise the file has the colour starts of its name on top
  (`countColorStarts_linesOf`).  So a palette that is sized by counting a file is the one sized by
  the summary exactly if the name starts no colour (`colors_numbered`).
-/
import Embroidery.Proofs.Preview.Name
import Embroidery.Proofs.Preview.Stored
import Embroidery.Proofs.Program.Delivery

namespace Embroidery

/-- The colour that an instruction starts. -/
def Instruction.startedColor? : Instruction → Option Nat
  | .pause (.colorStart color) => some color.toNat
  | _ => none

/-- The colours that the lines of a program start. -/
def startedColors (lines : List String) : List Nat :=
  (instructionsOf lines).filterMap Instruction.startedColor?

/-- The lines that the title of a program becomes in its text. -/
def titleLines : Option String → List String
  | some name => linesOf (joinLines [titleLine name])
  | none => []

section
variable {p : Parameters} {total : Nat}

/-! ## Colours of a run -/

theorem filterMap_startedColor?_of_none {is : List Instruction}
    (h : ∀ i ∈ is, i.isColorStart = false) : is.filterMap Instruction.startedColor? = [] := by
  refine List.filterMap_eq_nil_iff.2 ?_
  intro i hi
  have hnone := h i hi
  cases i with
  | pause code =>
    cases code with
    | colorStart color => exact Bool.noConfusion hnone
    | _ => rfl
  | _ => rfl

theorem AllIdle.filterMap_startedColor? {is : List Instruction} (his : AllIdle is) :
    is.filterMap Instruction.startedColor? = [] := by
  refine filterMap_startedColor?_of_none ?_
  intro i hi
  obtain ⟨-, -, -, hstart⟩ := Instruction.of_isIdle (his i hi)
  exact hstart

namespace Context

theorem filterMap_startedColor?_sew (spot : Point) (c : Context) :
    (sew p spot c).2.filterMap Instruction.startedColor? = [] := by
  obtain ⟨before, between, after, speed, hbefore, hbetween, hafter, hsew⟩ :=
    sew_around (p := p) spot c
  rw [hsew, List.filterMap_append, hbefore.filterMap_startedColor?, List.nil_append,
    List.filterMap_cons_none rfl, List.filterMap_append, hbetween.filterMap_startedColor?,
    List.nil_append, List.filterMap_cons_none rfl, hafter.filterMap_startedColor?]

theorem sew_color (spot : Point) (c : Context) : (sew p spot c).1.color = c.color := by
  obtain ⟨n, hn⟩ := sew_fst (p := p) spot c
  rw [hn]

/-- Below the last number, the next colour is the next number. -/
theorem toNat_nextColor {c : Context} (h : c.color < maxColor) :
    c.nextColor.toNat = c.color + 1 := by
  have hmax : maxColor = 99 := rfl
  rw [nextColor, UInt8.toNat_ofNat']
  omega

variable (p total) in
/-- A colour change starts the next colour, and nothing else starts one. -/
theorem step_color {c : Context} (hc : c.Sound) (e : StitchEvent) :
    (step p total c e).1.color = c.color + (if e.kind = .colorChange then 1 else 0) ∧
      (step p total c e).2.filterMap Instruction.startedColor? =
        if e.kind = .colorChange then [c.nextColor.toNat] else [] := by
  have hreport : AllIdle (report p total e.index c).2 := report_idle _ _
  have hmoved : AllIdle ((report p total e.index c).2 ++ [freeMove p e]) :=
    hreport.append (.cons (freeMove_idle e) .nil)
  have hended : AllIdle ((report p total e.index c).2 ++ (endRun c).2) :=
    hreport.append (endRun_idle c)
  by_cases he : e.kind = .colorChange
  · obtain ⟨r, hr⟩ := step_colorChange p total (c := c) he
    rw [if_pos he, if_pos he, hr, List.filterMap_append, hended.filterMap_startedColor?]
    exact ⟨rfl, rfl⟩
  rw [if_neg he, if_neg he]
  have houtcome := step_outcome p total hc e
  generalize step p total c e = after at houtcome ⊢
  cases houtcome with
  | moved r h =>
    exact ⟨rfl, (hended.append (.cons (freeMove_idle e) .nil)).filterMap_startedColor?⟩
  | trimmed r h =>
    exact ⟨rfl, (hended.append (.cons (freeMove_idle e) (.cons rfl .nil))).filterMap_startedColor?⟩
  | recolored r h => exact absurd h he
  | inserted r h hthread =>
    have hinsert :
        [freeMove p e, .pause .threadInserted].filterMap Instruction.startedColor? = [] := rfl
    rw [List.filterMap_append, List.filterMap_append, hinsert, hreport.filterMap_startedColor?,
      filterMap_startedColor?_sew]
    exact ⟨sew_color _ _, rfl⟩
  | sewn r h hthread =>
    rw [List.filterMap_append, hreport.filterMap_startedColor?, filterMap_startedColor?_sew]
    exact ⟨sew_color _ _, rfl⟩
  | rejected r h hthread hlast => exact ⟨rfl, hmoved.filterMap_startedColor?⟩

end Context

open Context

/-- The run lemma: as long as there are numbers left, the colours that a run starts are numbered on
    from the running one. -/
theorem startedColors_stages {c : Context} (hc : c.Sound) (prior : List Instruction)
    {events : List StitchEvent}
    (hroom : c.color + events.countP (·.kind = .colorChange) ≤ maxColor) :
    ((stages p total c prior events).flatMap Stage.written).filterMap Instruction.startedColor? =
      List.range' (c.color + 1) (events.countP (·.kind = .colorChange)) := by
  induction events generalizing c prior with
  | nil => rfl
  | cons e events ih =>
    obtain ⟨hcolor, hstarted⟩ := step_color p total hc e
    have hsound : (step p total c e).1.Sound := step_sound hc e
    rw [List.countP_cons] at hroom ⊢
    simp only [decide_eq_true_eq] at hroom ⊢
    have hrest := ih hsound (prior ++ (step p total c e).2) (by rw [hcolor]; omega)
    rw [stages, List.flatMap_cons, List.filterMap_append, hrest, hcolor]
    show (step p total c e).2.filterMap Instruction.startedColor? ++ _ = _
    rw [hstarted]
    by_cases he : e.kind = .colorChange
    · rw [if_pos he] at hroom
      rw [if_pos he, if_pos he, toNat_nextColor (by omega), List.range'_succ]
      rfl
    · rw [if_neg he, if_neg he]
      rfl

/-! ## Colours of a program -/

/-- A program starts the colours from one on. -/
theorem startedColors_programOf (pattern : Pattern)
    (hcolors : pattern.events.countP (·.kind = .colorChange) ≤ 98) :
    (programOf p pattern).filterMap Instruction.startedColor? =
      List.range' 1 (1 + pattern.events.countP (·.kind = .colorChange)) := by
  obtain ⟨body, hbody, hheader⟩ :=
    programHeader_eq p (Survey.ofEvents p.scalingFactor pattern.events)
  have htitle : (programTitle pattern.name).filterMap Instruction.startedColor? = [] := by
    cases pattern.name <;> rfl
  have hprepares : body.filterMap Instruction.startedColor? = [] := by
    refine filterMap_startedColor?_of_none ?_
    intro i hi
    cases i with
    | pause code => exact Bool.noConfusion (hbody _ hi)
    | _ => rfl
  have hroom : Context.start.color + pattern.events.countP (·.kind = .colorChange) ≤ maxColor := by
    show 1 + _ ≤ 99
    omega
  have hfooter : programFooter.filterMap Instruction.startedColor? = [] := rfl
  rw [programOf_eq, hheader, List.filterMap_append, List.filterMap_append, List.filterMap_append,
    List.filterMap_append, htitle, hprepares, hfooter, programStages,
    startedColors_stages start_sound _ hroom, List.append_nil, List.nil_append, List.nil_append,
    Nat.add_comm 1, List.range'_succ]
  rfl

/-- The line of a title is a comment. -/
theorem instructionsOf_titleLine (name : String) (lines : List String) :
    ∃ text, instructionsOf (titleLine name :: lines) = .comment text :: instructionsOf lines := by
  have hcomment : ∃ text, Instruction.parse (titleLine name) = .ok (.comment text) := by
    rw [Instruction.parse, titleLine, String.toList_ofList, ofChars_semicolon]
    exact ⟨_, rfl⟩
  obtain ⟨text, hcomment⟩ := hcomment
  refine ⟨text, ?_⟩
  rw [instructionsOf, List.filterMap_cons_some (b := .comment text) (by rw [hcomment]; rfl)]
  rfl

/-- The lines of a program start the colours that its instructions start. -/
theorem startedColors_programLines (p : Parameters) (pattern : Pattern)
    (hcolors : pattern.events.countP (·.kind = .colorChange) ≤ 98) :
    startedColors (programLines p pattern) =
      List.range' 1 (1 + pattern.events.countP (·.kind = .colorChange)) := by
  obtain ⟨name, events⟩ := pattern
  have hunnamed : startedColors (programLines p ⟨none, events⟩) =
      (programOf p ⟨none, events⟩).filterMap Instruction.startedColor? := by
    rw [startedColors, programLines, instructionsOf_map_text (programOf_writable p events),
      List.filterMap_map]
    refine congrArg (fun f => (programOf p ⟨none, events⟩).filterMap f) (funext fun i => ?_)
    cases i <;> rfl
  have hnumbers := startedColors_programOf (p := p) ⟨none, events⟩ hcolors
  cases name with
  | none => exact hunnamed.trans hnumbers
  | some name =>
    obtain ⟨text, htitle⟩ := instructionsOf_titleLine name (programLines p ⟨none, events⟩)
    rw [programLines_named, startedColors, htitle]
    exact hunnamed.trans hnumbers

theorem countColorStarts_eq_length (lines : List String) :
    countColorStarts lines = (startedColors lines).length := by
  rw [countColorStarts_eq, startedColors, List.length_filterMap_eq_countP]
  refine congrArg (fun test => (instructionsOf lines).countP test) (funext fun i => ?_)
  cases i with
  | pause code => cases code <;> rfl
  | _ => rfl

/-! ## Colours of a file -/

theorem startsColor_cutLine (line : String) : startsColor (cutLine line) = startsColor line := by
  rw [startsColor, cutLine, parse_dropLastIf, String.ofList_toList]
  rfl

theorem countColorStarts_append (lines others : List String) :
    countColorStarts (lines ++ others) = countColorStarts lines + countColorStarts others :=
  List.countP_append

/-- The lines of the text of a program start its colours, and those that the title starts. -/
theorem countColorStarts_linesOf (p : Parameters) (pattern : Pattern) :
    countColorStarts (linesOf (joinLines (programLines p pattern))) =
      countColorStarts (programLines p pattern) + countColorStarts (titleLines pattern.name) := by
  obtain ⟨name, events⟩ := pattern
  have hunnamed : countColorStarts (linesOf (joinLines (programLines p ⟨none, events⟩))) =
      countColorStarts (programLines p ⟨none, events⟩) := by
    rw [linesOf_joinLines (lineFeed_not_mem_programLines p events), countColorStarts,
      List.countP_map]
    refine List.countP_congr fun line _ => ?_
    rw [Function.comp_apply, startsColor_cutLine]
  cases name with
  | none => exact hunnamed
  | some name =>
    have htitle : countColorStarts (titleLine name :: programLines p ⟨none, events⟩) =
        countColorStarts (programLines p ⟨none, events⟩) :=
      List.countP_cons_of_neg (Bool.eq_false_iff.1 (startsColor_semicolon _))
    rw [programLines_named, linesOf_joinLines_cons, countColorStarts_append, hunnamed, htitle,
      Nat.add_comm]
    rfl

/-- A title of one line starts no colour. -/
theorem countColorStarts_titleLines {name : Option String}
    (h : ∀ text ∈ name, '\n' ∉ text.toList) : countColorStarts (titleLines name) = 0 := by
  cases name with
  | none => rfl
  | some text =>
    have hline : ∀ line ∈ [titleLine text], '\n' ∉ line.toList := by
      refine List.forall_mem_singleton.2 fun hfeed => ?_
      exact h text rfl ((lineFeed_mem_titleLine text).1 hfeed)
    have hsemicolon : startsColor (titleLine text) = false := startsColor_semicolon _
    rw [titleLines, linesOf_joinLines hline, List.map_singleton, countColorStarts,
      List.countP_singleton, startsColor_cutLine, hsemicolon]
    rfl

/-! ## The limit and the numbers -/

/-- Patterns are turned down for their colours exactly from 99 changes on, and then nothing is
    written. -/
theorem tooManyColors_iff {held cause : Type} (hp : p.check = .ok ()) (pattern : Pattern)
    (sink : Sink held cause) (before after : held) (count : Nat) :
    generateInto sink before p pattern = (after, .error (.tooManyColors count)) ↔
      99 ≤ pattern.events.countP (·.kind = .colorChange) ∧
        count = 1 + pattern.events.countP (·.kind = .colorChange) ∧ after = before := by
  by_cases hcolors : pattern.events.countP (·.kind = .colorChange) ≤ 98
  · rw [generateInto_of_few hp hcolors]
    refine iff_of_false ?_ (by omega)
    intro h
    have herror := (Prod.mk.inj h).2
    split at herror <;> exact nomatch herror
  · rw [generateInto_of_many hp (by omega)]
    constructor
    · intro h
      obtain ⟨hbefore, herror⟩ := Prod.mk.inj h
      have hcount := GenerateError.tooManyColors.inj (Except.error.inj herror)
      exact ⟨by omega, hcount.symm, hbefore.symm⟩
    · rintro ⟨-, rfl, rfl⟩
      rfl

/-- **Colours.**  Take sound parameters.  A pattern is turned down for its colours exactly if it has
    99 colour changes or more; the sink then keeps what it held.  Any other pattern is written to
    every sink that refuses no line, and its lines start the colours from one up to the number in
    the summary, in order.  In a file of these lines, the colours that the title starts are counted
    besides; it starts none if the name has no line feed, and then the preview in the colours that
    are counted is the preview in those of the summary. -/
theorem colors_numbered {p : Parameters} (hp : p.check = .ok ()) (pattern : Pattern) :
    (∀ {held cause : Type} (sink : Sink held cause) (before after : held) (count : Nat),
      generateInto sink before p pattern = (after, .error (.tooManyColors count)) ↔
        99 ≤ pattern.events.countP (·.kind = .colorChange) ∧
          count = 1 + pattern.events.countP (·.kind = .colorChange) ∧ after = before) ∧
    (pattern.events.countP (·.kind = .colorChange) < 99 →
      ∃ (lines : List String) (summary : Summary),
        summary.colorCount = 1 + pattern.events.countP (·.kind = .colorChange) ∧
        generate p pattern = .ok lines ∧
        (∀ {held cause : Type} (sink : Sink held cause),
          (∀ h line, (sink.take h line).2 = none) → ∀ before,
            generateInto sink before p pattern =
              (lines.foldl (fun h line => (sink.take h line).1) before, .ok summary)) ∧
        startedColors lines = List.range' 1 summary.colorCount ∧
        countColorStarts lines = summary.colorCount ∧
        ∀ {w : Workspace} {path : Path}, w.read path = .ok (joinLines lines).toUTF8 →
          (∀ size, (ProgramFile.countColors ⟨path, size⟩).run w =
            (.ok (summary.colorCount + countColorStarts (titleLines pattern.name)), w)) ∧
          ((∀ name ∈ pattern.name, '\n' ∉ name.toList) →
            countColorStarts (titleLines pattern.name) = 0 ∧
              (previewFile path none).run w =
                (previewFile path (some summary.colorCount)).run w)) := by
  refine ⟨tooManyColors_iff hp pattern, fun hfew => ?_⟩
  have hcolors : pattern.events.countP (·.kind = .colorChange) ≤ 98 := by omega
  have hstarted := startedColors_programLines p pattern hcolors
  have hcount : countColorStarts (programLines p pattern) =
      1 + pattern.events.countP (·.kind = .colorChange) := by
    rw [countColorStarts_eq_length, hstarted, List.length_range']
  refine ⟨programLines p pattern, programSummary p pattern, rfl, generate_eq hp hcolors, ?_,
    hstarted, hcount, ?_⟩
  · intro held cause sink hsink before
    rw [generateInto_of_few hp hcolors, Sink.takeAll_of_never hsink]
  · intro w path hread
    have hfile : countColorStarts (linesOf (joinLines (programLines p pattern))) =
        (programSummary p pattern).colorCount + countColorStarts (titleLines pattern.name) := by
      rw [countColorStarts_linesOf, hcount]
      rfl
    refine ⟨?_, ?_⟩
    · intro size
      rw [run_countColors hread, lossyText_toUTF8, hfile]
    · intro hname
      have hnone := countColorStarts_titleLines hname
      refine ⟨hnone, ?_⟩
      rw [run_previewFile hread, run_previewFile hread, lossyText_toUTF8, hfile, hnone]
      rfl

/-- Two colour changes and a stitch, and the file of a program with a name. -/
theorem colors_numbered_to_three :
    let p : Parameters := {}
    let pattern : Pattern := ⟨some "Rose", [⟨0, 10, 10, .stitch⟩, ⟨1, 10, 10, .colorChange⟩,
      ⟨2, 10, 10, .colorChange⟩]⟩
    p.check = .ok () ∧ ∃ lines, generate p pattern = .ok lines ∧ startedColors lines = [1, 2, 3] ∧
      ∀ {w : Workspace} {path : Path}, w.read path = .ok (joinLines lines).toUTF8 →
        (previewFile path none).run w = (previewFile path (some 3)).run w := by
  intro p pattern
  obtain ⟨-, hwritten⟩ := colors_numbered check_default pattern
  obtain ⟨lines, summary, hcolors, hlines, -, hstarted, -, hfile⟩ := hwritten (by decide)
  have hthree : summary.colorCount = 3 := hcolors
  rw [hthree] at hstarted hfile
  refine ⟨check_default, lines, hlines, hstarted, fun hread => ?_⟩
  exact ((hfile hread).2 (by decide)).2

/-- A name with a second line that starts a colour: two colours are counted in the file of a program
    with one, and its only stitch is previewed in another hue. -/
theorem colors_counted_in_name :
    let p : Parameters := {}
    let pattern : Pattern := ⟨some "a\nM0 C1", [⟨0, 10, 10, .stitch⟩]⟩
    let content := (joinLines (programLines p pattern)).toUTF8
    let w : Workspace := ⟨[], [(["p"], .file content)], 0⟩
    p.check = .ok () ∧ generate p pattern = .ok (programLines p pattern) ∧
      (programSummary p pattern).colorCount = 1 ∧
      (ProgramFile.countColors ⟨⟨"p"⟩, content.size⟩).run w = (.ok 2, w) ∧
      (previewFile ⟨"p"⟩ none).run w = (.ok ⟨[⟨1, hueCycle 2 1, [⟨1, 1⟩]⟩]⟩, w) ∧
      (previewFile ⟨"p"⟩ (some 1)).run w = (.ok ⟨[⟨1, hueCycle 1 1, [⟨1, 1⟩]⟩]⟩, w) ∧
      hueCycle 2 1 ≠ hueCycle 1 1 := by
  intro p pattern content w
  have hfound : ∀ content : ByteArray,
      (⟨[], [(["p"], .file content)], 0⟩ : Workspace).read ⟨"p"⟩ = .ok content := fun _ => rfl
  have hread : w.read ⟨"p"⟩ = .ok content := hfound content
  have hlines : linesOf (joinLines (programLines p pattern)) =
      ["; a", "m0 c1", "M17", "M73 P0", "G4 P500", "G0 X0.00 Y0.00 F3000", "G4 P500", "M0 C1",
        "G0 X1.00 Y1.00 F3000", "M0 C100", "M42", "G4 P500", "G1 X1.00 Y1.00 F800", "M3 S200 I1",
        "M5", "M18"] := by
    decide +kernel
  have hcount : countColorStarts (linesOf (joinLines (programLines p pattern))) = 2 := by
    rw [hlines]
    decide +kernel
  have hcounted : decodeText (hueCycle 2) (joinLines (programLines p pattern)) =
      ⟨[⟨1, hueCycle 2 1, [⟨1, 1⟩]⟩]⟩ := by
    rw [decodeText, hlines]
    decide +kernel
  have hsummed : decodeText (hueCycle 1) (joinLines (programLines p pattern)) =
      ⟨[⟨1, hueCycle 1 1, [⟨1, 1⟩]⟩]⟩ := by
    rw [decodeText, hlines]
    decide +kernel
  refine ⟨check_default, generate_eq check_default (by decide), rfl, ?_, ?_, ?_, by decide +kernel⟩
  · rw [run_countColors hread, lossyText_toUTF8, hcount]
  · rw [run_previewFile hread, lossyText_toUTF8, Option.getD_none, hcount, hcounted]
  · rw [run_previewFile hread, lossyText_toUTF8, Option.getD_some, hsummed]

end
end Embroidery
