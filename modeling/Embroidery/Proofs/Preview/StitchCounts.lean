/-
  One count of stitches in the program, its lines and its preview.

  A stitch that is sewn has one sewing move and one needle cycle in the program, and one point in
  the preview.  So the lines of both kinds and the points of the preview are equally many, whatever
  is left out: as many as there are stages that sew (`countP_programLines`,
  `pointCount_programLines`).  The summary counts all stitches of the pattern.  Without a clearance
  the two counts agree exactly if no stitch is left out, which is when neighbouring stitches are
  apart (`stitch_counts_agree_iff`).

  The lines are counted by how they open, which tells the instructions of a program apart.  The
  points are followed through the decoder: a colour change moves the pending points to the others,
  or loses none because without thread none are pending (`points_follow_stages`).
-/
import Embroidery.Proofs.Preview.RoundTrip
import Embroidery.Proofs.Program.AllSewn

namespace Embroidery

-- Powers of naturals are those of core, whatever other instances are at hand.
attribute [local instance (2000)] instPowNat

/-- The line starts with these two characters. -/
def opensWith (command line : String) : Bool := decide (line.toList.take 2 = command.toList)

section
variable {p : Parameters} {total : Nat}

/-! ## Stages that sew -/

/-- The stage of a stitch is sifted by itself. -/
theorem sifted_of_mem_stages {c : Context} (hc : c.Sound) {prior : List Instruction}
    {events : List StitchEvent} {s : Stage} (hs : s ∈ stages p total c prior events)
    (hstitch : s.isStitch = true) : Sifted p s.context.last [s] := by
  obtain ⟨hsound, hstage⟩ := sound_of_mem_stages hc hs
  have hsifted : Sifted p s.context.last [.of p total s.context s.prior s.event] :=
    sifted_stages hsound s.prior (List.forall_mem_singleton.2 (of_decide_eq_true hstitch))
  rw [← hstage] at hsifted
  exact hsifted

/-- What is no stitch neither sews nor makes the needle cycle. -/
theorem written_of_ne_stitch {c : Context} {e : StitchEvent} (he : e.kind ≠ .stitch) :
    ∀ i ∈ (Context.step p total c e).2, i.isSewing = false ∧ i.isCycle = false := by
  intro i hi
  cases hlose : e.kind.losesThread with
  | true => exact (written_of_losesThread hlose i hi).2
  | false =>
    obtain ⟨hidle, -⟩ := Context.step_idle p total (c := c) hlose he
    obtain ⟨hsewing, hcycle, -, -⟩ := Instruction.of_isIdle (hidle i hi)
    exact ⟨hsewing, hcycle⟩

/-- A stage that sews is that of a stitch. -/
theorem isStitch_of_sews {c : Context} (hc : c.Sound) {prior : List Instruction}
    {events : List StitchEvent} {s : Stage} (hs : s ∈ stages p total c prior events)
    (hsews : s.sews = true) : s.isStitch = true := by
  obtain ⟨-, hstage⟩ := sound_of_mem_stages hc hs
  obtain ⟨i, hi, hsewing⟩ := List.any_eq_true.1 hsews
  rw [hstage] at hi
  refine decide_eq_true (Decidable.not_not.1 fun hne => ?_)
  exact Bool.noConfusion (hsewing.symm.trans (written_of_ne_stitch hne i hi).1)

/-- A stage that sews has one sewing move and one needle cycle, and any other has none. -/
theorem countP_written {c : Context} (hc : c.Sound) {prior : List Instruction}
    {events : List StitchEvent} {s : Stage} (hs : s ∈ stages p total c prior events) :
    s.written.countP Instruction.isSewing = (if s.sews = true then 1 else 0) ∧
      s.written.countP Instruction.isCycle = if s.sews = true then 1 else 0 := by
  cases hsews : s.sews with
  | true =>
    have hsifted := sifted_of_mem_stages hc hs (isStitch_of_sews hc hs hsews)
    obtain ⟨hmove, hcycle⟩ := (hsifted.forall_mem s (List.mem_singleton_self s)).1 hsews
    rw [List.countP_eq_length_filter, hmove, hcycle]
    exact ⟨rfl, rfl⟩
  | false =>
    have hnone : s.written.countP Instruction.isSewing = 0 :=
      List.countP_eq_zero.2 (List.any_eq_false.1 hsews)
    refine ⟨hnone, ?_⟩
    cases hstitch : s.isStitch with
    | true =>
      have hsifted := sifted_of_mem_stages hc hs hstitch
      obtain ⟨⟨lead, hlead, hwritten⟩, -⟩ :=
        (hsifted.forall_mem s (List.mem_singleton_self s)).2 hsews
      rw [hwritten]
      rcases hlead with rfl | ⟨percent, rfl⟩ <;> rfl
    | false =>
      obtain ⟨-, hstage⟩ := sound_of_mem_stages hc hs
      refine List.countP_eq_zero.2 ?_
      intro i hi
      rw [hstage] at hi
      exact Bool.eq_false_iff.1 (written_of_ne_stitch (of_decide_eq_false hstitch) i hi).2

/-! ## Lines -/

theorem isIdle_of_prepares {i : Instruction} (h : i.prepares = true) : i.isIdle = true := by
  cases i with
  | move kind t => cases kind with
    | free => rfl
    | sewing => exact Bool.noConfusion h
  | pause code => exact Bool.noConfusion h
  | needleCycle speed => exact Bool.noConfusion h
  | _ => rfl

/-- What neither idle instructions nor colour starts are counted for is counted in the stages. -/
theorem countP_programOf {counts : Instruction → Bool}
    (hidle : ∀ i, i.isIdle = true → counts i = false)
    (hstart : ∀ color, counts (.pause (.colorStart color)) = false) (pattern : Pattern) :
    (programOf p pattern).countP counts =
      ((programStages p pattern).flatMap Stage.written).countP counts := by
  obtain ⟨body, hbody, hheader⟩ :=
    programHeader_eq p (Survey.ofEvents p.scalingFactor pattern.events)
  have hnone : ∀ {is : List Instruction}, (∀ i ∈ is, i.isIdle = true) → is.countP counts = 0 := by
    intro is his
    refine List.countP_eq_zero.2 ?_
    intro i hi
    exact Bool.eq_false_iff.1 (hidle i (his i hi))
  have htitle : ∀ i ∈ programTitle pattern.name, i.isIdle = true := by
    cases pattern.name with
    | none => exact List.forall_mem_nil _
    | some name => exact List.forall_mem_singleton.2 rfl
  have hprepares : ∀ i ∈ body, i.isIdle = true := fun i hi => isIdle_of_prepares (hbody i hi)
  have hfooter : ∀ i ∈ programFooter, i.isIdle = true := List.all_eq_true.1 rfl
  rw [programOf_eq, hheader, List.countP_append, List.countP_append, List.countP_append,
    List.countP_append, hnone htitle, hnone hprepares, hnone hfooter,
    List.countP_singleton, hstart, if_neg Bool.false_ne_true]
  omega

/-- The lines of a program are counted by its instructions, its title apart. -/
theorem countP_map_text {test : String → Bool} {counts : Instruction → Bool}
    (htext : ∀ i : Instruction, i.Writable → (test i.text = true ↔ counts i = true))
    (htitle : ∀ name, test (titleLine name) = false)
    (hcomment : ∀ text, counts (.comment text) = false) (pattern : Pattern) :
    (programLines p pattern).countP test = (programOf p pattern).countP counts := by
  obtain ⟨name, events⟩ := pattern
  have hunnamed : (programLines p ⟨none, events⟩).countP test =
      (programOf p ⟨none, events⟩).countP counts := by
    rw [programLines, List.countP_map]
    refine List.countP_congr ?_
    intro i hi
    exact htext i (programOf_writable p events i hi)
  cases name with
  | none => exact hunnamed
  | some name =>
    rw [programLines_named, programOf_named,
      List.countP_cons_of_neg (Bool.eq_false_iff.1 (htitle name)),
      List.countP_cons_of_neg (Bool.eq_false_iff.1 (hcomment (lowerText name))), hunnamed]

/-- Sewing moves and needle cycles are told by how their lines open. -/
theorem opensWith_text {i : Instruction} (hi : i.Writable) :
    (opensWith "G1" i.text = true ↔ i.isSewing = true) ∧
      (opensWith "M3" i.text = true ↔ i.isCycle = true) := by
  obtain ⟨s, hs⟩ := exists_spelling hi
  rw [opensWith, opensWith, decide_eq_true_iff, decide_eq_true_iff, take_two_of_spelling hs]
  cases i with
  | comment text => exact hi.elim
  | other text => exact hi.elim
  | move kind t =>
    cases kind <;>
    · rw [← Option.some.inj hs]
      dsimp only [Instruction.isSewing, Instruction.isCycle]
      decide
  | motors on => cases on <;> rw [← Option.some.inj hs] <;> decide
  | tension on => cases on <;> rw [← Option.some.inj hs] <;> decide
  | _ =>
    rw [← Option.some.inj hs]
    dsimp only [Instruction.isSewing, Instruction.isCycle]
    decide

theorem opensWith_titleLine (name : String) :
    opensWith "G1" (titleLine name) = false ∧ opensWith "M3" (titleLine name) = false := by
  have hsewing : "G1".toList = ['G', '1'] := by decide
  have hcycle : "M3".toList = ['M', '3'] := by decide
  rw [opensWith, opensWith, titleLine, String.toList_ofList, hsewing, hcycle]
  constructor
  · exact decide_eq_false fun h => absurd (List.cons.inj h).1 (by decide)
  · exact decide_eq_false fun h => absurd (List.cons.inj h).1 (by decide)

/-- The sewing moves and the needle cycles of a program are those of its stages that sew. -/
theorem countP_programLines (p : Parameters) (pattern : Pattern) :
    (programLines p pattern).countP (opensWith "G1") =
        (programStages p pattern).countP Stage.sews ∧
      (programLines p pattern).countP (opensWith "M3") =
        (programStages p pattern).countP Stage.sews := by
  have hstage : ∀ s ∈ programStages p pattern,
      s.written.countP Instruction.isSewing = (if s.sews = true then 1 else 0) ∧
        s.written.countP Instruction.isCycle = if s.sews = true then 1 else 0 :=
    fun s hs => countP_written Context.start_sound hs
  constructor
  · rw [countP_map_text (fun i hi => (opensWith_text hi).1)
      (fun name => (opensWith_titleLine name).1) (fun _ => rfl),
      countP_programOf (fun i hi => (Instruction.of_isIdle hi).1) (fun _ => rfl)]
    exact countP_flatMap_of_ite fun s hs => (hstage s hs).1
  · rw [countP_map_text (fun i hi => (opensWith_text hi).2)
      (fun name => (opensWith_titleLine name).2) (fun _ => rfl),
      countP_programOf (fun i hi => (Instruction.of_isIdle hi).2.1) (fun _ => rfl)]
    exact countP_flatMap_of_ite fun s hs => (hstage s hs).2

/-! ## Points -/

theorem isSome_point? (s : Stage) : s.point?.isSome = s.sews := by
  unfold Stage.point? Stage.sews
  cases hfind : s.written.find? Instruction.isSewing with
  | none => exact (List.any_eq_false.2 (List.find?_eq_none.1 hfind)).symm
  | some i =>
    have hsewing : i.isSewing = true := List.find?_some hfind
    rw [List.any_eq_true.2 ⟨i, List.mem_of_find?_eq_some hfind, hsewing⟩]
    cases i with
    | move kind t => rfl
    | _ => exact Bool.noConfusion hsewing

/-- Stages have as many points as there are stitches among them that are sewn. -/
theorem length_segmentPoints {c : Context} (hc : c.Sound) (prior : List Instruction)
    (events : List StitchEvent) :
    (segmentPoints (stages p total c prior events)).length =
      (stages p total c prior events).countP Stage.sews := by
  rw [segmentPoints, List.length_filterMap_eq_countP, List.countP_filter]
  refine List.countP_congr ?_
  intro s hs
  rw [isSome_point?, Bool.and_eq_true]
  exact and_iff_left_of_imp (isStitch_of_sews hc hs)

namespace Decoder

variable {palette : Palette} {c : Context} {prior : List Instruction} {d : Decoder}

/-- The points that a decoder has met, in all colours. -/
def met (d : Decoder) : List Point := d.sealed.toList.flatMap ColorGroup.points ++ d.pending.toList

/-- A running colour without thread has no points. -/
def Tidy (d : Decoder) : Prop := d.threaded = false → d.pending = #[]

/-- Closing the running colour, if it had its thread, keeps its points. -/
theorem flatMap_points_close (hd : d.Tidy) (palette : Palette) :
    (if d.threaded then d.sealed.push ⟨d.number, palette d.number, d.pending.toList⟩
      else d.sealed).toList.flatMap ColorGroup.points = d.met := by
  unfold met
  cases hthread : d.threaded with
  | true =>
    rw [if_pos rfl, Array.toList_push, List.flatMap_append, List.flatMap_singleton]
  | false =>
    rw [if_neg Bool.false_ne_true, hd hthread]
    exact (List.append_nil _).symm

theorem points_finish (hstarted : d.started = true) (hd : d.Tidy) (palette : Palette) :
    (d.finish palette).points = d.met := by
  rw [← flatMap_points_close hd palette, finish, Preview.points, hstarted]
  cases d.threaded <;> rfl

variable (p total palette) in
/-- The run lemma: a decoder meets the points of the stages in their order. -/
theorem points_follow_stages (hc : c.Sound) (hd : d.Ready c prior) (htidy : d.Tidy)
    (events : List StitchEvent) :
    ((d.follow palette ((stages p total c prior events).flatMap Stage.written)).finish
      palette).points = d.met ++ segmentPoints (stages p total c prior events) := by
  induction events generalizing c prior d with
  | nil =>
    show (d.finish palette).points = d.met ++ []
    rw [points_finish hd.started htidy, List.append_nil]
  | cons e events ih =>
    have hnext : (Context.step p total c e).1.Sound := Context.step_sound hc e
    rw [stages, List.flatMap_cons, follow_append, segmentPoints_cons]
    show ((follow palette (d.follow palette (Context.step p total c e).2) _).finish
      palette).points = _
    by_cases he : e.kind = .colorChange
    · obtain ⟨hfollow, -⟩ := follow_colorChange palette p total hd he
      have hother : Stage.isStitch (.of p total c prior e) = false := by
        refine decide_eq_false ?_
        show ¬e.kind = .stitch
        rw [he]
        decide
      have hmet : (d.follow palette (Context.step p total c e).2).met = d.met := by
        rw [met, hfollow]
        show List.flatMap _ _ ++ [] = _
        rw [List.append_nil]
        exact flatMap_points_close htidy palette
      have hrest : (d.follow palette (Context.step p total c e).2).Tidy := by
        rw [hfollow]
        exact fun _ => rfl
      rw [ih hnext (ready_colorChange hd he) hrest, hmet, segmentPoints_of_ne_stitch hother]
      rfl
    · obtain ⟨hfollow, -⟩ := follow_stage palette p total hc hd he
      have hmet : (d.follow palette (Context.step p total c e).2).met =
          d.met ++ segmentPoints [.of p total c prior e] := by
        rw [met, hfollow]
        show _ ++ (d.pending ++ (segmentPoints _).toArray).toList = _
        rw [Array.toList_append, ← List.append_assoc]
        rfl
      have hrest : (d.follow palette (Context.step p total c e).2).Tidy := by
        rw [hfollow]
        intro hthread
        obtain ⟨hnone, hother⟩ := Bool.or_eq_false_iff.1 hthread
        show d.pending ++ (segmentPoints _).toArray = #[]
        rw [htidy hnone, segmentPoints_of_ne_stitch hother]
        rfl
      rw [ih hnext (ready_stage hc hd he) hrest, hmet, List.append_assoc]

end Decoder

/-- The preview of the lines of a program has a point for each stage that sews. -/
theorem pointCount_programLines (p : Parameters) (pattern : Pattern) (palette : Palette) :
    (decodeLines palette (programLines p pattern)).pointCount =
      (programStages p pattern).countP Stage.sews := by
  let header :=
    programHeader p (Survey.ofEvents p.scalingFactor pattern.events) pattern.name
  have hready : (Decoder.start.follow palette header).Ready .start header := by
    rw [follow_header]
    exact ⟨rfl, fun h => Bool.noConfusion h, rfl⟩
  have htidy : (Decoder.start.follow palette header).Tidy := by
    rw [follow_header]
    exact fun _ => rfl
  have hmet : (Decoder.start.follow palette header).met = [] := by
    rw [follow_header]
    rfl
  have hpoints := Decoder.points_follow_stages p pattern.events.length palette
    Context.start_sound hready htidy pattern.events
  have hfooter : ∀ d : Decoder, d.follow palette programFooter = d := fun _ => rfl
  rw [hmet, List.nil_append] at hpoints
  rw [decodeLines, foldl_readLine_programLines, programOf_eq, Decoder.follow_append,
    Decoder.follow_append, hfooter, Preview.pointCount]
  exact (congrArg List.length hpoints).trans (length_segmentPoints Context.start_sound _ _)

/-! ## The counts of a program -/

/-- What is written to a sink for lines is the program. -/
theorem lines_of_generateInto {pattern : Pattern} {lines : Array String} {summary : Summary}
    (h : generateInto (Sink.lines : Sink (Array String) Empty) #[] p pattern =
      (lines, .ok summary)) :
    p.check = .ok () ∧ lines.toList = programLines p pattern ∧
      summary.stitchCount = pattern.events.countP (·.kind = .stitch) := by
  obtain ⟨hp, -, htaken, rfl⟩ := of_generateInto h
  rw [Sink.lines, Sink.takeAll_following, List.foldl_push_eq_append'] at htaken
  have hlines : #[] ++ (programLines p pattern).toArray = lines := congrArg Prod.fst htaken
  refine ⟨hp, ?_, rfl⟩
  rw [← hlines, Array.toList_append]
  rfl

/-- As many stages sew as there are stitches exactly if all stitches are sewn. -/
theorem countP_sews_eq_iff (p : Parameters) (pattern : Pattern) :
    (programStages p pattern).countP Stage.sews = pattern.events.countP (·.kind = .stitch) ↔
      ∀ s ∈ programStages p pattern, s.isStitch = true → s.sews = true := by
  have hevents : pattern.events.countP (·.kind = .stitch) =
      ((programStages p pattern).filter Stage.isStitch).length := by
    have hmap : (programStages p pattern).map Stage.event = pattern.events :=
      map_event_stages _ _ _
    rw [← List.countP_eq_length_filter]
    exact (congrArg _ hmap.symm).trans List.countP_map
  have hsews : (programStages p pattern).countP Stage.sews =
      ((programStages p pattern).filter Stage.isStitch).countP Stage.sews := by
    rw [List.countP_filter]
    refine List.countP_congr ?_
    intro s hs
    rw [Bool.and_eq_true]
    exact (and_iff_left_of_imp (isStitch_of_sews Context.start_sound hs)).symm
  rw [hevents, hsews, List.countP_eq_length]
  simp only [List.mem_filter, and_imp]

/-- **No stitch is lost without a clearance.**  Write the program of a sound pattern.  It has as
    many needle cycles as sewing moves, and its preview has as many points.  Every stitch is sewn,
    and all these counts are that of the summary, exactly if no two neighbouring stitches are
    infinitely far out on the same side of the machine.  With a factor of at least one, this holds
    of coordinates up to 10^300. -/
theorem stitch_counts_agree_iff {pattern : Pattern} {lines : Array String} {summary : Summary}
    (hpattern : pattern.check = .ok pattern) (hclearance : p.clearance = none)
    (h : generateInto (Sink.lines : Sink (Array String) Empty) #[] p pattern =
      (lines, .ok summary)) (palette : Palette) :
    let sewn := lines.toList.countP (opensWith "G1")
    (lines.toList.countP (opensWith "M3") = sewn ∧
        (decodeLines palette lines.toList).pointCount = sewn) ∧
      ((∀ s ∈ programStages p pattern, s.isStitch = true → s.SewnOnce p) ↔
        pattern.events.IsChain (StitchEvent.Apart p.scalingFactor)) ∧
      (sewn = summary.stitchCount ↔ pattern.events.IsChain (StitchEvent.Apart p.scalingFactor)) ∧
      (1 ≤ p.scalingFactor → (∀ e ∈ pattern.events, e.IsNear) → sewn = summary.stitchCount) := by
  obtain ⟨hp, hlines, hstitches⟩ := lines_of_generateInto h
  obtain ⟨hsewing, hcycles⟩ := countP_programLines p pattern
  have hall := programStages_all_sewn_iff hpattern hp hclearance
  have hcount : (programStages p pattern).countP Stage.sews = summary.stitchCount ↔
      pattern.events.IsChain (StitchEvent.Apart p.scalingFactor) := by
    rw [hstitches]
    exact (countP_sews_eq_iff p pattern).trans hall
  intro sewn
  have hsewn : sewn = (programStages p pattern).countP Stage.sews := by
    rw [← hsewing, ← hlines]
  rw [hsewn, hlines, hcycles, pointCount_programLines]
  refine ⟨⟨rfl, rfl⟩, ?_, hcount, ?_⟩
  · rw [← hall]
    refine forall₂_congr fun s hs => forall_congr' fun hstitch => ?_
    have hsifted := sifted_of_mem_stages Context.start_sound hs hstitch
    exact ⟨Stage.SewnOnce.sews, (hsifted.forall_mem s (List.mem_singleton_self s)).1⟩
  · intro hfactor hnear
    exact hcount.2 (isChain_apart_of_near hfactor hnear)

/-- Two stitches at one place and a third behind a trim. -/
theorem stitch_counts_of_three :
    let p : Parameters := {}
    let pattern : Pattern := ⟨none, [⟨0, 10, 10, .stitch⟩, ⟨1, 10, 10, .stitch⟩,
      ⟨2, 20, 10, .trim⟩, ⟨3, 20, 10, .stitch⟩]⟩
    pattern.check = .ok pattern ∧ p.clearance = none ∧ ∃ lines summary,
      generateInto (Sink.lines : Sink (Array String) Empty) #[] p pattern = (lines, .ok summary) ∧
        lines.toList.countP (opensWith "G1") = summary.stitchCount ∧
        (decodeLines (hueCycle 1) lines.toList).pointCount = summary.stitchCount := by
  intro p pattern
  have hpattern : pattern.check = .ok pattern := check_eq_ok_iff.2 (by decide +kernel)
  have hwritten : generateInto (Sink.lines : Sink (Array String) Empty) #[] p pattern = _ :=
    generateInto_following Array.push #[] check_default (by decide)
  obtain ⟨⟨-, hpoints⟩, -, hcount, -⟩ :=
    stitch_counts_agree_iff hpattern rfl hwritten (hueCycle 1)
  have hsewn := hcount.2 (by decide +kernel)
  exact ⟨hpattern, rfl, _, _, hwritten, hsewn, hpoints.trans hsewn⟩

/-- Two stitches at one place, so far away that rounding makes it infinite: the second is left
    out. -/
theorem stitch_lost_far_out :
    let p : Parameters := {}
    let far := Binary64.ofNat (10 ^ (308 : Nat))
    let pattern : Pattern := ⟨none, [⟨0, far, 0, .stitch⟩, ⟨1, far, 0, .stitch⟩]⟩
    pattern.check = .ok pattern ∧ p.check = .ok () ∧ p.clearance = none ∧ ∃ lines summary,
      generateInto (Sink.lines : Sink (Array String) Empty) #[] p pattern = (lines, .ok summary) ∧
        summary.stitchCount = 2 ∧ lines.toList.countP (opensWith "G1") = 1 ∧
        lines.toList.countP (opensWith "M3") = 1 ∧
        (decodeLines (hueCycle 1) lines.toList).pointCount = 1 := by
  intro p far pattern
  have hpattern : pattern.check = .ok pattern := check_eq_ok_iff.2 (by decide +kernel)
  have hwritten : generateInto (Sink.lines : Sink (Array String) Empty) #[] p pattern = _ :=
    generateInto_following Array.push #[] check_default (by decide)
  obtain ⟨-, hlines, -⟩ := lines_of_generateInto hwritten
  obtain ⟨hsewing, hcycles⟩ := countP_programLines p pattern
  have hsewn : (programStages p pattern).countP Stage.sews = 1 := by decide +kernel
  refine ⟨hpattern, check_default, rfl, _, _, hwritten, rfl, ?_, ?_, ?_⟩
  · rw [hlines, hsewing, hsewn]
  · rw [hlines, hcycles, hsewn]
  · rw [hlines, pointCount_programLines, hsewn]

end
end Embroidery
