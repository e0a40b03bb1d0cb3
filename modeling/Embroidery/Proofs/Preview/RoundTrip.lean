/-
  The preview of a program is that of its pattern.

  A generator and a decoder meet in the lines of a program.  The generator keeps a `Context`, cuts
  the pattern at its colour changes only by what it writes, and leaves out stitches; the decoder
  keeps the colour, the thread and the position, and knows nothing of the events.
  `preview_of_program` says what comes out: one group for each segment with a stitch, under the
  number of the segment, with the points of the sewing moves as their lines spell them.

  The two runs are followed side by side.  `Decoder.Ready` relates a decoder to the context: it has
  the thread if the context has it, and stands where the moves so far end.  Each stage keeps this
  and adds its point, if it sews one, to the running colour (`follow_stage`); a colour change closes
  the running colour (`follow_colorChange`).  The induction on the events carries the running colour
  along (`groups_follow_stages`).
-/
import Embroidery.Preview.Decoder
import Embroidery.Proofs.Program.Thread
import Embroidery.Proofs.Program.Written

namespace Embroidery

/-! ## Points as their lines spell them -/

/-- Where an instruction goes, if it is a move. -/
def Instruction.target? : Instruction → Option Target
  | .move _ target => some target
  | _ => none

/-- The finite number on an axis that the line of an instruction spells, if it is a move. -/
def Instruction.spelled (axis : Target → Option Binary64) (i : Instruction) : Option Binary64 :=
  i.target?.bind fun t => (axis t).bind readBack

/-- The last number on an axis that the lines of some instructions spell, zero if there is none. -/
def lastReadable (axis : Target → Option Binary64) (is : List Instruction) : Binary64 :=
  (is.filterMap (Instruction.spelled axis)).getLast?.getD 0

/-- Where instructions end, as their lines spell it. -/
def spelledPosition (is : List Instruction) : Point :=
  ⟨lastReadable Target.x is, lastReadable Target.y is⟩

/-- The point of a move behind other instructions, as its line spells it.  An axis on which the line
    spells no finite number repeats the last one. -/
def spelledPoint (before : List Instruction) (t : Target) : Point where
  x := (t.x.bind readBack).getD (lastReadable Target.x before)
  y := (t.y.bind readBack).getD (lastReadable Target.y before)

/-- The point of the sewing move of a stage, if there is one. -/
def Stage.point? (s : Stage) : Option Point :=
  (s.written.find? Instruction.isSewing).bind fun i =>
    i.target?.map (spelledPoint (s.prior ++ s.written.takeWhile fun j => !j.isSewing))

/-! ## Segments -/

/-- A run cut at its colour changes. -/
def segments (ss : List Stage) : List (List Stage) :=
  ss.splitOnP fun s => s.event.kind = .colorChange

/-- The points that the stitches of a segment sew. -/
def segmentPoints (segment : List Stage) : List Point :=
  (segment.filter Stage.isStitch).filterMap Stage.point?

/-- The group of a segment with its number; none without a stitch. -/
def segmentGroup (palette : Palette) : List Stage × Nat → Option ColorGroup
  | (segment, number) =>
    if segment.any Stage.isStitch then
      some ⟨number, palette number, segmentPoints segment⟩
    else none

/-- What is made of numbered elements, from a number on. -/
theorem filterMap_zipIdx_cons {α β : Type} (make : α × Nat → Option β) (a : α) (rest : List α)
    (number : Nat) :
    ((a :: rest).zipIdx number).filterMap make =
      (make (a, number)).toList ++ (rest.zipIdx (number + 1)).filterMap make := by
  rw [List.zipIdx_cons]
  cases h : make (a, number) with
  | none => rw [List.filterMap_cons_none h]; rfl
  | some b => rw [List.filterMap_cons_some h]; rfl

theorem segments_cons (s : Stage) (ss : List Stage) :
    segments (s :: ss) =
      if s.event.kind = .colorChange then [] :: segments ss
      else (segments ss).modifyHead (s :: ·) := by
  rw [segments, List.splitOnP_cons_eq_if_modifyHead]
  by_cases h : s.event.kind = .colorChange
  · rw [if_pos h, if_pos (decide_eq_true h)]
    rfl
  · rw [if_neg h, if_neg (fun htrue => h (of_decide_eq_true htrue))]
    rfl

theorem segmentPoints_cons (s : Stage) (segment : List Stage) :
    segmentPoints (s :: segment) = segmentPoints [s] ++ segmentPoints segment := by
  rw [segmentPoints, ← List.singleton_append, List.filter_append, List.filterMap_append]
  rfl

theorem segmentPoints_of_stitch {s : Stage} (h : s.isStitch = true) :
    segmentPoints [s] = s.point?.toList := by
  rw [segmentPoints, List.filter_cons_of_pos h]
  cases hpoint : s.point? with
  | none => rw [List.filterMap_cons_none hpoint]; rfl
  | some point => rw [List.filterMap_cons_some hpoint]; rfl

theorem segmentPoints_of_ne_stitch {s : Stage} (h : s.isStitch = false) :
    segmentPoints [s] = [] := by
  rw [segmentPoints, List.filter_cons_of_neg (by rw [h]; exact Bool.false_ne_true)]
  rfl

/-- Behind sewing moves of no other kind, the point of a stage is that of its first sewing move. -/
theorem point?_of_append {s : Stage} {quiet rest : List Instruction} {t : Target}
    (hwritten : s.written = quiet ++ .move .sewing t :: rest)
    (hquiet : ∀ i ∈ quiet, i.isSewing = false) :
    s.point? = some (spelledPoint (s.prior ++ quiet) t) := by
  have hfind : s.written.find? Instruction.isSewing = some (.move .sewing t) := by
    have hnone : quiet.find? Instruction.isSewing = none := by
      refine List.find?_eq_none.2 ?_
      intro i hi
      exact Bool.eq_false_iff.1 (hquiet i hi)
    rw [hwritten, List.find?_append, hnone]
    rfl
  have htake : (s.written.takeWhile fun j => !j.isSewing) = quiet := by
    have hall : ∀ i ∈ quiet, (!i.isSewing) = true := by
      intro i hi
      rw [hquiet i hi]
      rfl
    rw [hwritten, List.takeWhile_append_of_pos hall,
      List.takeWhile_cons_of_neg (fun h => Bool.noConfusion h), List.append_nil]
  rw [Stage.point?, hfind, htake]
  rfl

theorem point?_of_none {s : Stage} (h : ∀ i ∈ s.written, i.isSewing = false) :
    s.point? = none := by
  have hfind : s.written.find? Instruction.isSewing = none := by
    refine List.find?_eq_none.2 ?_
    intro i hi
    exact Bool.eq_false_iff.1 (h i hi)
  rw [Stage.point?, hfind]
  rfl

/-! ## Positions -/

/-- The last value that a list gives, with an element added at its end. -/
theorem getLast?_filterMap_concat {α β : Type} (value : α → Option β) (as : List α) (a : α)
    (default : β) :
    ((as ++ [a]).filterMap value).getLast?.getD default =
      (value a).getD ((as.filterMap value).getLast?.getD default) := by
  rw [List.filterMap_append]
  cases h : value a with
  | none => rw [List.filterMap_cons_none h, List.filterMap_nil, List.append_nil]; rfl
  | some v => rw [List.filterMap_cons_some h, List.filterMap_nil, List.getLast?_concat]; rfl

theorem lastReadable_concat (axis : Target → Option Binary64) (is : List Instruction)
    (i : Instruction) :
    lastReadable axis (is ++ [i]) = (i.spelled axis).getD (lastReadable axis is) :=
  getLast?_filterMap_concat _ is i 0

theorem spelledPosition_move (is : List Instruction) (kind : MoveKind) (t : Target) :
    spelledPosition (is ++ [.move kind t]) = spelledPoint is t := by
  rw [spelledPosition, lastReadable_concat, lastReadable_concat]
  rfl

theorem spelledPosition_other (is : List Instruction) {i : Instruction} (h : i.target? = none) :
    spelledPosition (is ++ [i]) = spelledPosition is := by
  rw [spelledPosition, lastReadable_concat, lastReadable_concat, Instruction.spelled,
    Instruction.spelled, h]
  rfl

/-! ## Following a program -/

/-- At most the position of a decoder depends on the instruction. -/
def Instruction.passes (i : Instruction) : Bool := !i.isSewing && !i.isInsertion && !i.isColorStart

theorem passes_of_isIdle {i : Instruction} (h : i.isIdle = true) : i.passes = true := by
  obtain ⟨hsewing, -, hinsertion, hstart⟩ := Instruction.of_isIdle h
  rw [Instruction.passes, hsewing, hinsertion, hstart]
  rfl

theorem AllIdle.passes {is : List Instruction} (his : AllIdle is) :
    ∀ i ∈ is, i.passes = true := by
  intro i hi
  exact passes_of_isIdle (his i hi)

theorem AllIdle.not_sewing {is : List Instruction} (his : AllIdle is) :
    ∀ i ∈ is, i.isSewing = false := by
  intro i hi
  obtain ⟨hsewing, -, -, -⟩ := Instruction.of_isIdle (his i hi)
  exact hsewing

theorem passes_of_prepares {i : Instruction} (h : i.prepares = true) : i.passes = true := by
  cases i with
  | move kind t => cases kind with
    | free => rfl
    | sewing => exact Bool.noConfusion h
  | pause code => exact Bool.noConfusion h
  | _ => rfl

namespace Decoder

variable (palette : Palette)

/-- Follow instructions as their lines read back. -/
def follow (d : Decoder) (is : List Instruction) : Decoder :=
  is.foldl (fun d i => d.apply palette i.reread) d

theorem follow_append (d : Decoder) (is js : List Instruction) :
    d.follow palette (is ++ js) = (d.follow palette is).follow palette js :=
  List.foldl_append

/-- To read lines is to follow the instructions that they spell. -/
theorem foldl_readLine_eq (d : Decoder) (lines : List String) :
    lines.foldl (readLine palette) d =
      (instructionsOf lines).foldl (apply palette) d := by
  induction lines generalizing d with
  | nil => rfl
  | cons line rest ih =>
    rw [List.foldl_cons, ih]
    unfold instructionsOf readLine
    cases h : Instruction.parse line with
    | error fault =>
      rw [List.filterMap_cons_none (by rw [h]; rfl)]
    | ok i =>
      rw [List.filterMap_cons_some (b := i) (by rw [h]; rfl), List.foldl_cons]

/-- To read the lines of instructions is to follow the instructions. -/
theorem foldl_readLine {is : List Instruction} (his : ∀ i ∈ is, i.Writable) (d : Decoder) :
    (is.map Instruction.text).foldl (readLine palette) d = d.follow palette is := by
  rw [foldl_readLine_eq, instructionsOf_map_text his, List.foldl_map]
  rfl

/-- A line that starts with a semicolon changes nothing. -/
theorem readLine_semicolon (d : Decoder) (text : List Char) :
    d.readLine palette (String.ofList (';' :: text)) = d := by
  rw [readLine, Instruction.parse, String.toList_ofList, ofChars_semicolon]
  rfl

variable {palette}

theorem apply_sewing (d : Decoder) (t : Target) :
    d.apply palette (.move .sewing t) =
      { d with
        position := d.reach t
        pending :=
          if d.started && d.threaded then d.pending.push (d.reach t) else d.pending } := rfl

theorem apply_colorStart (d : Decoder) (color : UInt8) :
    d.apply palette (.pause (.colorStart color)) = d.startColor palette := rfl

theorem reach_reread {d : Decoder} {prior : List Instruction}
    (hd : d.position = spelledPosition prior) (t : Target) :
    d.reach t.reread = spelledPoint prior t := by
  rw [reach, hd]
  rfl

theorem apply_passing {d : Decoder} {prior : List Instruction}
    (hd : d.position = spelledPosition prior) {i : Instruction} (hi : i.passes = true) :
    d.apply palette i.reread = { d with position := spelledPosition (prior ++ [i]) } := by
  have hkept : i.target? = none → d = { d with position := spelledPosition (prior ++ [i]) } := by
    intro h
    rw [spelledPosition_other prior h, ← hd]
  cases i with
  | move kind t =>
    cases kind with
    | free =>
      show { d with position := d.reach t.reread } = _
      rw [reach_reread hd, spelledPosition_move]
    | sewing => exact Bool.noConfusion hi
  | pause code =>
    cases code with
    | colorStart color => exact Bool.noConfusion hi
    | threadInserted => exact Bool.noConfusion hi
    | _ => exact hkept rfl
  | _ => exact hkept rfl

/-- Instructions that sew nothing, start no colour and ask for no thread change at most the
    position. -/
theorem follow_passing {d : Decoder} {prior is : List Instruction}
    (hd : d.position = spelledPosition prior) (his : ∀ i ∈ is, i.passes = true) :
    d.follow palette is = { d with position := spelledPosition (prior ++ is) } := by
  induction is generalizing d prior with
  | nil => rw [List.append_nil, ← hd]; rfl
  | cons i is ih =>
    obtain ⟨hi, his⟩ := List.forall_mem_cons.1 his
    show (d.apply palette i.reread).follow palette is = _
    rw [apply_passing hd hi, ih rfl his, List.append_assoc]
    rfl

/-- The pause for the insertion of the thread, behind idle instructions. -/
theorem follow_insertion {d : Decoder} {prior is : List Instruction}
    (hd : d.position = spelledPosition prior) (his : AllIdle is) :
    d.follow palette (is ++ [.pause .threadInserted]) =
      { d with
        threaded := true
        position := spelledPosition (prior ++ (is ++ [.pause .threadInserted])) } := by
  rw [follow_append, follow_passing hd his.passes, ← List.append_assoc,
    spelledPosition_other (prior ++ is) (i := .pause .threadInserted) rfl]
  rfl

/-- A sewing move of a running colour with thread adds its point. -/
theorem follow_sewing {d : Decoder} {prior quiet rest : List Instruction} {t : Target}
    (hstarted : d.started = true)
    (hquiet : d.follow palette quiet =
      { d with threaded := true, position := spelledPosition (prior ++ quiet) })
    (hrest : ∀ i ∈ rest, i.passes = true) :
    d.follow palette (quiet ++ .move .sewing t :: rest) =
      { d with
        threaded := true
        position := spelledPosition (prior ++ (quiet ++ .move .sewing t :: rest))
        pending := d.pending.push (spelledPoint (prior ++ quiet) t) } := by
  have hmove : (d.follow palette quiet).apply palette (.move .sewing t.reread) =
      { d with
        threaded := true
        position := spelledPosition (prior ++ quiet ++ [.move .sewing t])
        pending := d.pending.push (spelledPoint (prior ++ quiet) t) } := by
    rw [hquiet, apply_sewing, reach_reread rfl, spelledPosition_move]
    dsimp only
    rw [hstarted]
    rfl
  have hall : prior ++ quiet ++ [.move .sewing t] ++ rest =
      prior ++ (quiet ++ .move .sewing t :: rest) := by
    simp only [List.append_assoc, List.cons_append, List.nil_append]
  rw [follow_append]
  show ((d.follow palette quiet).apply palette (.move .sewing t.reread)).follow palette rest = _
  rw [hmove, follow_passing rfl hrest, hall]

/-! ## Stages -/

/-- A decoder that has followed what was written before a context. -/
structure Ready (d : Decoder) (c : Context) (prior : List Instruction) : Prop where
  started : d.started = true
  threaded : c.threaded = true → d.threaded = true
  position : d.position = spelledPosition prior

variable {p : Parameters} {total : Nat} {c : Context} {prior : List Instruction} {d : Decoder}

/-- A stitch that is sewn adds its point, whether or not the thread was there. -/
theorem follow_sewn (hd : d.Ready c prior) {e : StitchEvent} (quiet : List Instruction)
    (c' : Context) (hstitch : e.kind = .stitch)
    (hquiet : d.follow palette quiet =
      { d with threaded := true, position := spelledPosition (prior ++ quiet) })
    (hnone : ∀ i ∈ quiet, i.isSewing = false)
    (hwritten : (Context.step p total c e).2 =
      quiet ++ (Context.sew p (e.position p.scalingFactor) c').2) :
    d.follow palette (Context.step p total c e).2 =
      { d with
        threaded := true
        position := spelledPosition (prior ++ (Context.step p total c e).2)
        pending := d.pending ++ (segmentPoints [.of p total c prior e]).toArray } := by
  obtain ⟨before, between, after, speed, hbefore, hbetween, hafter, hsew⟩ :=
    Context.sew_around (p := p) (e.position p.scalingFactor) c'
  have hsplit : (Context.step p total c e).2 = (quiet ++ before) ++
      .move .sewing (.at (e.position p.scalingFactor) p.stitchSpeed) ::
        (between ++ .needleCycle (some speed) :: after) := by
    rw [hwritten, hsew, List.append_assoc]
  have hsettled : d.follow palette (quiet ++ before) =
      { d with threaded := true, position := spelledPosition (prior ++ (quiet ++ before)) } := by
    rw [follow_append, hquiet, follow_passing rfl hbefore.passes, List.append_assoc]
  have hbehind : ∀ i ∈ between ++ .needleCycle (some speed) :: after, i.passes = true :=
    List.forall_mem_append.2 ⟨hbetween.passes, List.forall_mem_cons.2 ⟨rfl, hafter.passes⟩⟩
  have hsewing : ∀ i ∈ quiet ++ before, i.isSewing = false :=
    List.forall_mem_append.2 ⟨hnone, hbefore.not_sewing⟩
  have hpoint := point?_of_append (s := .of p total c prior e) hsplit hsewing
  have hstage : Stage.isStitch (.of p total c prior e) = true := decide_eq_true hstitch
  rw [segmentPoints_of_stitch hstage, hpoint, hsplit, follow_sewing hd.started hsettled hbehind]
  rfl

/-- A stage with idle instructions only leaves at most the position changed. -/
theorem follow_idle (hd : d.Ready c prior) {e : StitchEvent}
    (hidle : AllIdle (Context.step p total c e).2) :
    d.follow palette (Context.step p total c e).2 =
      { d with
        position := spelledPosition (prior ++ (Context.step p total c e).2)
        pending := d.pending ++ (segmentPoints [.of p total c prior e]).toArray } := by
  have hpoint : Stage.point? (.of p total c prior e) = none :=
    point?_of_none hidle.not_sewing
  have hpoints : segmentPoints [.of p total c prior e] = [] := by
    cases hstitch : Stage.isStitch (.of p total c prior e) with
    | true => rw [segmentPoints_of_stitch hstitch, hpoint]; rfl
    | false => exact segmentPoints_of_ne_stitch hstitch
  rw [follow_passing hd.position hidle.passes, hpoints, Array.append_empty]

variable (p total palette) in
/-- A stage that starts no colour adds its points to the running colour, which has its thread from
    the first stitch on. -/
theorem follow_stage (hc : c.Sound) (hd : d.Ready c prior) {e : StitchEvent}
    (he : e.kind ≠ .colorChange) :
    d.follow palette (Context.step p total c e).2 =
        { d with
          threaded := d.threaded || Stage.isStitch (.of p total c prior e)
          position := spelledPosition (prior ++ (Context.step p total c e).2)
          pending := d.pending ++ (segmentPoints [.of p total c prior e]).toArray } ∧
      ((Context.step p total c e).1.threaded = true →
        (d.threaded || Stage.isStitch (.of p total c prior e)) = true) := by
  have houtcome := Context.step_outcome p total hc e
  have hreport : AllIdle (Context.report p total e.index c).2 := Context.report_idle e.index c
  have hmoved : AllIdle ((Context.report p total e.index c).2 ++ [Context.freeMove p e]) :=
    hreport.append (.cons (Context.freeMove_idle e) .nil)
  have hended : AllIdle ((Context.report p total e.index c).2 ++ (Context.endRun c).2) :=
    hreport.append (Context.endRun_idle c)
  have hstitch : e.kind = .stitch → Stage.isStitch (.of p total c prior e) = true := decide_eq_true
  have hother : e.kind ≠ .stitch → Stage.isStitch (.of p total c prior e) = false :=
    decide_eq_false
  generalize hstep : Context.step p total c e = after at houtcome
  cases houtcome with
  | moved r h =>
    have hidle : AllIdle (Context.step p total c e).2 := by
      rw [hstep]
      exact hended.append (.cons (Context.freeMove_idle e) .nil)
    have hkind : e.kind ≠ .stitch := by
      rcases h with h | h
      · rw [h]
        decide
      · rw [h]
        decide
    rw [← hstep, hother hkind, Bool.or_false]
    refine ⟨follow_idle hd hidle, ?_⟩
    intro hthread
    rw [hstep] at hthread
    exact hd.threaded hthread
  | trimmed r h =>
    have hidle : AllIdle (Context.step p total c e).2 := by
      rw [hstep]
      exact hended.append (.cons (Context.freeMove_idle e) (.cons rfl .nil))
    have hkind : e.kind ≠ .stitch := by
      rw [h]
      decide
    rw [← hstep, hother hkind, Bool.or_false]
    refine ⟨follow_idle hd hidle, ?_⟩
    intro hthread
    rw [hstep] at hthread
    exact Bool.noConfusion hthread
  | recolored r h => exact absurd h he
  | inserted r h hthread =>
    -- the pause for the insertion tells the decoder that the thread is there
    rw [← hstep, hstitch h, Bool.or_true]
    refine ⟨follow_sewn hd _ { c with reported := r, threaded := true } h
      (follow_insertion hd.position hmoved) ?_ ?_, fun _ => rfl⟩
    · exact List.forall_mem_append.2 ⟨hmoved.not_sewing, List.forall_mem_singleton.2 rfl⟩
    · rw [hstep]
      simp only [List.append_assoc, List.cons_append, List.nil_append]
  | sewn r h hthread =>
    have hdecoder : d.threaded = true := hd.threaded hthread
    rw [← hstep, hstitch h, Bool.or_true]
    refine ⟨follow_sewn hd (Context.report p total e.index c).2 { c with reported := r } h ?_ ?_ ?_,
      fun _ => rfl⟩
    · rw [follow_passing hd.position hreport.passes, ← hdecoder]
    · exact hreport.not_sewing
    · rw [hstep]
  | rejected r h hthread hlast =>
    have hidle : AllIdle (Context.step p total c e).2 := by
      rw [hstep]
      exact hmoved
    -- the stitch is lost, but its segment has the thread of an earlier one
    have hdecoder : d.threaded = true := hd.threaded hthread
    rw [← hstep, hstitch h, Bool.or_true]
    refine ⟨?_, fun _ => rfl⟩
    rw [follow_idle hd hidle, ← hdecoder]

variable (p total palette) in
/-- A colour change closes the running colour, if it had its thread, and starts the next without. -/
theorem follow_colorChange (hd : d.Ready c prior) {e : StitchEvent} (he : e.kind = .colorChange) :
    d.follow palette (Context.step p total c e).2 =
        { number := d.number + 1
          started := true
          threaded := false
          position := spelledPosition (prior ++ (Context.step p total c e).2)
          pending := #[]
          sealed :=
            if d.threaded then d.sealed.push ⟨d.number, palette d.number, d.pending.toList⟩
            else d.sealed } ∧
      (Context.step p total c e).1.threaded = false := by
  obtain ⟨r, hr⟩ := Context.step_colorChange p total (c := c) he
  rw [hr]
  refine ⟨?_, rfl⟩
  have hended : AllIdle ((Context.report p total e.index c).2 ++ (Context.endRun c).2) :=
    (Context.report_idle e.index c).append (Context.endRun_idle c)
  have hstart : ∀ q : Point, ({ d with position := q } : Decoder).apply palette
      (.pause (.colorStart c.nextColor)) =
      { number := d.number + 1
        started := true
        threaded := false
        position := q
        pending := #[]
        sealed :=
          if d.threaded then d.sealed.push ⟨d.number, palette d.number, d.pending.toList⟩
          else d.sealed } := by
    -- a colour without thread was never sewn, and is not kept
    intro q
    rw [apply_colorStart, startColor, hd.started]
    cases d.threaded <;> rfl
  rw [follow_append, follow_passing hd.position hended.passes]
  show (Decoder.apply palette _ (.pause (.colorStart c.nextColor))).follow palette
    [Context.freeMove p e] = _
  rw [hstart, ← spelledPosition_other _ (i := .pause (.colorStart c.nextColor)) rfl,
    follow_passing rfl (List.forall_mem_singleton.2 rfl)]
  simp only [List.append_assoc, List.cons_append, List.nil_append]

theorem ready_stage (hc : c.Sound) (hd : d.Ready c prior) {e : StitchEvent}
    (he : e.kind ≠ .colorChange) :
    Ready (d.follow palette (Context.step p total c e).2) (Context.step p total c e).1
      (prior ++ (Context.step p total c e).2) := by
  obtain ⟨hfollow, hthread⟩ := follow_stage palette p total hc hd he
  rw [hfollow]
  exact ⟨hd.started, hthread, rfl⟩

theorem ready_colorChange (hd : d.Ready c prior) {e : StitchEvent} (he : e.kind = .colorChange) :
    Ready (d.follow palette (Context.step p total c e).2) (Context.step p total c e).1
      (prior ++ (Context.step p total c e).2) := by
  obtain ⟨hfollow, hthread⟩ := follow_colorChange palette p total hd he
  rw [hfollow]
  exact ⟨rfl, fun h => Bool.noConfusion (hthread.symm.trans h), rfl⟩

/-! ## Runs -/

/-- The group that the running colour leaves at the end of a segment, if it leaves one. -/
def runningGroup (palette : Palette) (d : Decoder) (segment : List Stage) : List ColorGroup :=
  if d.threaded || segment.any Stage.isStitch then
    [⟨d.number, palette d.number, d.pending.toList ++ segmentPoints segment⟩]
  else []

/-- At the end of the program the running colour is closed. -/
theorem groups_finish (hd : d.started = true) :
    (d.finish palette).groups = d.sealed.toList ++ d.runningGroup palette [] := by
  rw [finish, runningGroup, hd]
  cases d.threaded with
  | false => exact (List.append_nil _).symm
  | true =>
    show (d.sealed.push _).toList = d.sealed.toList ++ [⟨_, _, d.pending.toList ++ []⟩]
    rw [Array.toList_push, List.append_nil]

/-- A stage that starts no colour becomes the first of the rest of its segment. -/
theorem runningGroup_cons (d : Decoder) (s : Stage) (segment : List Stage) (q : Point) :
    runningGroup palette
        { d with
          threaded := d.threaded || s.isStitch
          position := q
          pending := d.pending ++ (segmentPoints [s]).toArray } segment =
      runningGroup palette d (s :: segment) := by
  have hpoints : (d.pending ++ (segmentPoints [s]).toArray).toList ++ segmentPoints segment =
      d.pending.toList ++ segmentPoints (s :: segment) := by
    rw [segmentPoints_cons s segment, Array.toList_append, List.append_assoc]
  rw [runningGroup, runningGroup, hpoints, List.any_cons, Bool.or_assoc]

/-- A new colour leaves the group of its segment. -/
theorem runningGroup_new {d : Decoder} (hthread : d.threaded = false) (hpending : d.pending = #[])
    (segment : List Stage) :
    d.runningGroup palette segment = (segmentGroup palette (segment, d.number)).toList := by
  rw [runningGroup, segmentGroup, hthread, hpending, Bool.false_or]
  split <;> rfl

variable (p total palette) in
/-- A colour change leaves the group of the colour that ran, and then that of the next one. -/
theorem groups_colorChange (hd : d.Ready c prior) {e : StitchEvent} (he : e.kind = .colorChange)
    (first : List Stage) :
    (d.follow palette (Context.step p total c e).2).number = d.number + 1 ∧
      (d.follow palette (Context.step p total c e).2).sealed.toList
          ++ (d.follow palette (Context.step p total c e).2).runningGroup palette first =
        d.sealed.toList ++ (d.runningGroup palette []
          ++ (segmentGroup palette (first, d.number + 1)).toList) := by
  obtain ⟨hfollow, -⟩ := follow_colorChange palette p total hd he
  have hnew : (d.follow palette (Context.step p total c e).2).runningGroup palette first =
      (segmentGroup palette (first, d.number + 1)).toList := by
    rw [hfollow]
    exact runningGroup_new rfl rfl first
  have hclosed : (d.follow palette (Context.step p total c e).2).sealed.toList =
      d.sealed.toList ++ d.runningGroup palette [] := by
    rw [hfollow, ← groups_finish hd.started, finish, hd.started]
    cases d.threaded <;> rfl
  refine ⟨by rw [hfollow], ?_⟩
  rw [hnew, hclosed, List.append_assoc]

variable (p total palette) in
/-- The run lemma: the colours closed before, the running colour with the rest of its segment, and a
    group for each further segment with a stitch. -/
theorem groups_follow_stages (hc : c.Sound) (hd : d.Ready c prior) (events : List StitchEvent) :
    ∃ first rest, segments (stages p total c prior events) = first :: rest ∧
      ((d.follow palette
          ((stages p total c prior events).flatMap Stage.written)).finish palette).groups =
        d.sealed.toList ++ (d.runningGroup palette first ++
          (rest.zipIdx (d.number + 1)).filterMap (segmentGroup palette)) := by
  -- any event but a colour change extends the segment of the running colour
  induction events generalizing c prior d with
  | nil =>
    refine ⟨[], [], rfl, ?_⟩
    rw [List.zipIdx_nil, List.filterMap_nil, List.append_nil]
    exact groups_finish hd.started
  | cons e events ih =>
    have hnext : (Context.step p total c e).1.Sound := Context.step_sound hc e
    rw [stages, List.flatMap_cons, follow_append, segments_cons]
    by_cases he : e.kind = .colorChange
    · obtain ⟨first, rest, hsegments, hgroups⟩ := ih hnext (ready_colorChange hd he)
      obtain ⟨hnumber, hclosed⟩ := groups_colorChange palette p total hd he first
      refine ⟨[], first :: rest, ?_, ?_⟩
      · rw [hsegments]
        exact if_pos he
      · show ((follow palette (d.follow palette (Context.step p total c e).2) _).finish
          palette).groups = _
        rw [hgroups, ← List.append_assoc, hclosed, hnumber, filterMap_zipIdx_cons,
          List.append_assoc, List.append_assoc]
    · obtain ⟨hfollow, -⟩ := follow_stage palette p total hc hd he
      obtain ⟨first, rest, hsegments, hgroups⟩ := ih hnext (ready_stage hc hd he)
      refine ⟨.of p total c prior e :: first, rest, ?_, ?_⟩
      · rw [hsegments]
        exact if_neg he
      · show ((follow palette (d.follow palette (Context.step p total c e).2) _).finish
          palette).groups = _
        rw [hgroups, hfollow, runningGroup_cons]

end Decoder

/-! ## Programs -/

open Decoder

/-- Behind the header the first colour runs, without thread. -/
theorem follow_header (p : Parameters) (survey : Survey) (name : Option String)
    (palette : Palette) :
    Decoder.start.follow palette (programHeader p survey name) =
      { Decoder.start with
        started := true
        position := spelledPosition (programHeader p survey name) } := by
  obtain ⟨body, hbody, hheader⟩ := programHeader_eq p survey
  have hpasses : ∀ i ∈ programTitle name ++ body, i.passes = true := by
    intro i hi
    rcases List.mem_append.1 hi with hi | hi
    · cases name with
      | none => exact absurd hi List.not_mem_nil
      | some name =>
        rw [List.mem_singleton.1 hi]
        rfl
    · exact passes_of_prepares (hbody i hi)
  have hstart : Decoder.start.position = spelledPosition [] := rfl
  rw [hheader, ← List.append_assoc, follow_append, follow_passing hstart hpasses, List.nil_append,
    spelledPosition_other (programTitle name ++ body) (i := .pause (.colorStart 1)) rfl]
  rfl

/-- To read the lines of a program is to follow it; the name, if there is one, is a comment. -/
theorem foldl_readLine_programLines (p : Parameters) (pattern : Pattern) (palette : Palette)
    (d : Decoder) :
    (programLines p pattern).foldl (readLine palette) d =
      d.follow palette (programOf p pattern) := by
  obtain ⟨name, events⟩ := pattern
  cases name with
  | none => exact foldl_readLine palette (programOf_writable p events) d
  | some name =>
    rw [programLines_named, List.foldl_cons, titleLine, readLine_semicolon, programOf_named]
    exact foldl_readLine palette (programOf_writable p events) d

/-- **The round trip.**  The program of sound parameters and of events with at most 98 colour
    changes has a stage for each event and is written, and the preview of its lines has one group
    for each segment between colour changes that has a stitch.  The group has the number of the
    segment, its colour in the palette, and the points of the sewing moves of its stitches, as the
    lines of these moves spell them. -/
theorem preview_of_program {p : Parameters} {pattern : Pattern} (hp : p.check = .ok ())
    (hcolors : pattern.events.countP (·.kind = .colorChange) ≤ 98) (palette : Palette) :
    (programStages p pattern).map Stage.event = pattern.events ∧
      ∃ lines, generate p pattern = .ok lines ∧
        decodeLines palette lines =
          ⟨(segments (programStages p pattern)).zipIdx.filterMap (segmentGroup palette)⟩ := by
  refine ⟨map_event_stages _ _ _, programLines p pattern, generate_eq hp hcolors, ?_⟩
  have hready : Ready
      (Decoder.start.follow palette
        (programHeader p (Survey.ofEvents p.scalingFactor pattern.events) pattern.name))
      .start (programHeader p (Survey.ofEvents p.scalingFactor pattern.events) pattern.name) := by
    rw [follow_header]
    exact ⟨rfl, fun h => Bool.noConfusion h, rfl⟩
  obtain ⟨first, rest, hsegments, hgroups⟩ := groups_follow_stages palette p pattern.events.length
    Context.start_sound hready pattern.events
  have hfooter : ∀ d : Decoder, d.follow palette programFooter = d := fun _ => rfl
  have hlines : decodeLines palette (programLines p pattern) =
      (Decoder.follow palette .start (programOf p pattern)).finish palette := by
    rw [decodeLines, foldl_readLine_programLines]
  rw [hlines, programOf_eq, follow_append, follow_append, hfooter]
  refine congrArg Preview.mk (hgroups.trans ?_)
  rw [follow_header, runningGroup_new rfl rfl, programStages, hsegments,
    filterMap_zipIdx_cons]
  rfl

/-- Three segments, the second without a stitch. -/
theorem preview_of_three_segments :
    let p : Parameters := {}
    let pattern : Pattern :=
      ⟨none, [⟨0, 10, 10, .stitch⟩, ⟨1, 10, 10, .colorChange⟩, ⟨2, 30, 10, .jump⟩,
        ⟨3, 30, 10, .colorChange⟩, ⟨4, 50, 20, .stitch⟩, ⟨5, 70, 20, .stitch⟩]⟩
    p.check = .ok () ∧ pattern.events.countP (·.kind = .colorChange) ≤ 98 ∧
      ∃ lines, generate p pattern = .ok lines ∧
        decodeLines (hueCycle 3) lines =
          ⟨[⟨0, hueCycle 3 0, [⟨1, 1⟩]⟩, ⟨2, hueCycle 3 2, [⟨5, 2⟩, ⟨7, 2⟩]⟩]⟩ := by
  intro p pattern
  have hcolors : pattern.events.countP (·.kind = .colorChange) ≤ 98 := by decide
  obtain ⟨-, lines, hlines, hpreview⟩ := preview_of_program check_default hcolors (hueCycle 3)
  refine ⟨check_default, hcolors, lines, hlines, hpreview.trans ?_⟩
  decide +kernel

end Embroidery
