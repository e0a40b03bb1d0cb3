/-
  What the name of a pattern does to its program.

  The name is free text that is written in lower case as a comment in front of the program.  A name
  without a line feed stays inside that comment: the program has the lines that the summary counts,
  and preview and colour starts are those of the program without the name.  A line feed in the name
  ends the comment, and what stands behind it in the name is read as a line of the program.  So the
  name does nothing exactly if it has no line feed (`name_is_inert_iff`).
-/
import Embroidery.Proofs.Preview.RoundTrip
import Embroidery.Proofs.Text.Lines

namespace Embroidery

/-! ## Lower case -/

/-- Letters and their lower-case forms lie above the control characters. -/
theorem lowerRuns_above : ∀ r ∈ lowerRuns, 32 < r.1 ∧ 32 < (r.1 : Int) + r.2.2.2 := by
  decide +kernel

theorem ofNat_ne_lineFeed {n : Nat} (h : 32 < n) : Char.ofNat n ≠ '\n' := by
  intro heq
  have hcode : (Char.ofNat n).toNat = 10 := by rw [heq]; rfl
  by_cases hvalid : n.isValidChar
  · have hchar : Char.ofNat n = Char.ofNatAux n hvalid := dif_pos hvalid
    rw [hchar] at hcode
    have hn : n = 10 := hcode
    omega
  · have hchar : Char.ofNat n = '\x00' := dif_neg hvalid
    rw [hchar] at hcode
    exact absurd hcode (by decide)

theorem lineFeed_mem_lowerChar {c : Char} : '\n' ∈ lowerChar c ↔ c = '\n' := by
  unfold lowerChar
  split
  · next h =>
    subst h
    decide
  · dsimp only
    split
    · next first last step shift hrun =>
      obtain ⟨hfirst, hshifted⟩ := lowerRuns_above _ (List.mem_of_find?_eq_some hrun)
      have hrange := List.find?_some hrun
      simp only [Bool.and_eq_true, decide_eq_true_eq] at hrange
      dsimp only at hfirst hshifted
      constructor
      · intro h
        exact absurd (List.mem_singleton.1 h).symm (ofNat_ne_lineFeed (by omega))
      · rintro rfl
        exact absurd hrange.1.1 (by show ¬first ≤ 10; omega)
    · rw [List.mem_singleton, eq_comm]

/-- Lower case neither adds line feeds nor takes them away. -/
theorem lineFeed_mem_lowerFrom (before cs : List Char) :
    '\n' ∈ lowerFrom before cs ↔ '\n' ∈ cs := by
  induction cs generalizing before with
  | nil => exact Iff.rfl
  | cons c cs ih =>
    rw [lowerFrom, List.mem_append, ih, List.mem_cons]
    refine or_congr ?_ Iff.rfl
    split
    · next h =>
      -- the one capital letter whose small form depends on what stands around it
      subst h
      split <;> decide
    · rw [lineFeed_mem_lowerChar, eq_comm]

theorem lineFeed_mem_lowerText (text : String) :
    '\n' ∈ (lowerText text).toList ↔ '\n' ∈ text.toList := by
  rw [lowerText, String.toList_ofList, lineFeed_mem_lowerFrom]

/-! ## Lines of a program -/

/-- Without a name, a program has no line with a line feed inside. -/
theorem lineFeed_not_mem_programLines (p : Parameters) (events : List StitchEvent) :
    ∀ line ∈ programLines p ⟨none, events⟩, '\n' ∉ line.toList := by
  intro line hline hmem
  obtain ⟨i, hi, rfl⟩ := List.mem_map.1 hline
  obtain ⟨s, hs⟩ := exists_spelling (programOf_writable p events i hi)
  rw [Instruction.text, String.toList_ofList] at hmem
  rcases mem_chars_of_spelling hs hmem with h | h
  · exact absurd h (by decide)
  · exact absurd h (by decide)

theorem lineFeed_mem_titleLine (name : String) :
    '\n' ∈ (titleLine name).toList ↔ '\n' ∈ name.toList := by
  rw [titleLine, String.toList_ofList, List.mem_cons, List.mem_cons, lineFeed_mem_lowerText]
  constructor
  · rintro (h | h | h)
    · exact absurd h (by decide)
    · exact absurd h (by decide)
    · exact h
  · intro h
    exact .inr (.inr h)

/-- A line that starts with a semicolon starts no colour. -/
theorem startsColor_semicolon (text : List Char) :
    startsColor (String.ofList (';' :: text)) = false := by
  rw [startsColor, Instruction.parse, String.toList_ofList, ofChars_semicolon]

/-- The text of a program, as a sink for text holds it. -/
theorem generateInto_text {p : Parameters} (hp : p.check = .ok ()) (pattern : Pattern)
    (hcolors : pattern.events.countP (·.kind = .colorChange) ≤ 98) :
    ∃ summary, generateInto (Sink.text : Sink String Empty) "" p pattern =
        (joinLines (programLines p pattern), .ok summary) ∧
      summary.lineCount = (programLines p pattern).length := by
  have htext : generateInto (Sink.text : Sink String Empty) "" p pattern = _ :=
    generateInto_following (fun text line => text ++ line ++ "\n") "" hp hcolors
  rw [foldl_addLine, String.empty_append] at htext
  exact ⟨_, htext, rfl⟩

/-! ## Names -/

/-- **The name of a pattern.**  Write the program of sound parameters and of events with at most 98
    colour changes as a text, with a name and without.  The text with the name has the lines that
    its summary counts, and the preview and the number of colour starts of the text without, exactly
    if the name has no line feed. -/
theorem name_is_inert_iff {p : Parameters} {events : List StitchEvent} (hp : p.check = .ok ())
    (hcolors : events.countP (·.kind = .colorChange) ≤ 98) (name : String) :
    ∃ text summary plain plainSummary,
      generateInto (Sink.text : Sink String Empty) "" p ⟨some name, events⟩ = (text, .ok summary) ∧
      generateInto (Sink.text : Sink String Empty) "" p ⟨none, events⟩ = (plain, .ok plainSummary) ∧
      ((HasLines summary.lineCount text ∧
          (∀ palette, decodeText palette text = decodeText palette plain) ∧
          countColorStarts (linesOf text) = countColorStarts (linesOf plain)) ↔
        '\n' ∉ name.toList) := by
  obtain ⟨summary, htext, hcount⟩ := generateInto_text hp ⟨some name, events⟩ hcolors
  obtain ⟨plainSummary, hplain, -⟩ := generateInto_text hp ⟨none, events⟩ hcolors
  refine ⟨_, summary, _, plainSummary, htext, hplain, ?_⟩
  rw [hcount, hasLines_joinLines_iff, programLines_named]
  constructor
  · -- the count of the lines alone already fails
    rintro ⟨hlines, -, -⟩ hname
    exact hlines (titleLine name) List.mem_cons_self ((lineFeed_mem_titleLine name).2 hname)
  · -- the comment is then one line, and the decoder passes it over
    intro hname
    have hrest := lineFeed_not_mem_programLines p events
    have htop : '\n' ∉ (titleLine name).toList := by
      intro h
      exact hname ((lineFeed_mem_titleLine name).1 h)
    have hall : ∀ line ∈ titleLine name :: programLines p ⟨none, events⟩, '\n' ∉ line.toList :=
      List.forall_mem_cons.2 ⟨htop, hrest⟩
    obtain ⟨title, htitle⟩ := cutLine_cons (c := ';') (by decide) (' ' :: (lowerText name).toList)
    have hcut : linesOf (joinLines (titleLine name :: programLines p ⟨none, events⟩)) =
        String.ofList (';' :: title) :: linesOf (joinLines (programLines p ⟨none, events⟩)) := by
      rw [linesOf_joinLines hall, linesOf_joinLines hrest, List.map_cons, titleLine, htitle]
    refine ⟨hall, ?_, ?_⟩
    · intro palette
      rw [decodeText, decodeText, hcut, decodeLines, List.foldl_cons, Decoder.readLine_semicolon]
      rfl
    · rw [hcut, countColorStarts, List.countP_cons_of_neg
        (Bool.eq_false_iff.1 (startsColor_semicolon title))]
      rfl

/-- A name of one word. -/
theorem name_is_inert_of_one_word :
    let p : Parameters := {}
    let events : List StitchEvent := [⟨0, 10, 10, .stitch⟩]
    p.check = .ok () ∧ events.countP (·.kind = .colorChange) ≤ 98 ∧
      ∃ text summary, generateInto (Sink.text : Sink String Empty) "" p ⟨some "Rose", events⟩ =
          (text, .ok summary) ∧ HasLines summary.lineCount text := by
  intro p events
  have hcolors : events.countP (·.kind = .colorChange) ≤ 98 := by decide
  obtain ⟨text, summary, plain, plainSummary, htext, hplain, hiff⟩ :=
    name_is_inert_iff check_default hcolors "Rose"
  exact ⟨check_default, hcolors, text, summary, htext, (hiff.2 (by decide)).1⟩

/-- A name with a second line that starts a colour: the text has one more line than its summary
    counts, a colour start too many, and the stitch is previewed in the wrong colour. -/
theorem name_with_a_second_line :
    let events : List StitchEvent := [⟨0, 10, 10, .stitch⟩]
    let named := generateInto (Sink.text : Sink String Empty) "" {} ⟨some "a\nM0 C1", events⟩
    let plain := generateInto (Sink.text : Sink String Empty) "" {} ⟨none, events⟩
    (∃ summary, named.2 = .ok summary ∧ ¬HasLines summary.lineCount named.1) ∧
      (decodeText (hueCycle 1) plain.1).groups = [⟨0, hueCycle 1 0, [⟨1, 1⟩]⟩] ∧
      (decodeText (hueCycle 1) named.1).groups = [⟨1, hueCycle 1 1, [⟨1, 1⟩]⟩] ∧
      countColorStarts (linesOf plain.1) = 1 ∧ countColorStarts (linesOf named.1) = 2 := by
  intro events named plain
  constructor
  · have hfeed : '\n' ∈ "a\nM0 C1".toList := by decide
    obtain ⟨summary, htext, hcount⟩ := generateInto_text check_default
      ⟨some "a\nM0 C1", events⟩ (by decide)
    refine ⟨summary, congrArg Prod.snd htext, ?_⟩
    show ¬HasLines summary.lineCount (generateInto _ "" {} ⟨some "a\nM0 C1", events⟩).1
    rw [htext, hcount, hasLines_joinLines_iff, programLines_named]
    intro hlines
    exact hlines _ List.mem_cons_self ((lineFeed_mem_titleLine _).2 hfeed)
  · decide +kernel

end Embroidery
