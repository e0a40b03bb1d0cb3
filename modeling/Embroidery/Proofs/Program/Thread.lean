/-
  When the thread is inserted.

  The run of a pattern is cut at its trims and colour changes, which take the thread away.  What is
  left are pieces, and in each of them the thread is inserted once if there is a stitch, and not at
  all otherwise (`insertion_once_at_first_stitch`).  It is the first stitch of the piece that asks
  for it, before anything is sewn, and that stitch is then sewn whatever the clearance.

  Two facts about a context carry this.  A piece is entered without thread, and a context without
  thread has no last stitch to be too close to (`Context.Sound`); jumps and the end of the pattern
  keep both.  Once the thread is there nothing in the piece asks for it again.
-/
import Embroidery.Proofs.Program.Stages

namespace Embroidery

/-- The events that take the thread away. -/
def StitchKind.losesThread : StitchKind → Bool
  | .trim | .colorChange => true
  | .stitch | .jump | .finish => false

section
variable {p : Parameters} {total : Nat}

namespace Context

/-! ## What a stitch writes -/

/-- A stitch is sewn by one sewing move and one needle cycle, with idle instructions around them. -/
theorem sew_around (spot : Point) (c : Context) :
    ∃ before between after speed, AllIdle before ∧ AllIdle between ∧ AllIdle after ∧
      (sew p spot c).2 = before ++ .move .sewing (.at spot p.stitchSpeed) ::
        (between ++ .needleCycle (some speed) :: after) := by
  obtain ⟨u, v, speed, hu, hv, hsew⟩ := sew_snd (p := p) spot c
  refine ⟨_, u, v, speed, setTension_idle true c, ?_, ?_, hsew⟩
  · intro i hi
    obtain ⟨x, y, z, rfl⟩ := hu i hi
    rfl
  · intro i hi
    rw [hv i hi]
    rfl

theorem filter_isSewing_sew (spot : Point) (c : Context) :
    (sew p spot c).2.filter Instruction.isSewing = [.move .sewing (.at spot p.stitchSpeed)] := by
  obtain ⟨before, between, after, speed, hbefore, hbetween, hafter, hsew⟩ :=
    sew_around (p := p) spot c
  rw [hsew, List.filter_append, hbefore.filter_isSewing, List.nil_append,
    List.filter_cons_of_pos rfl, List.filter_append, hbetween.filter_isSewing, List.nil_append,
    List.filter_cons_of_neg Bool.false_ne_true, hafter.filter_isSewing]

theorem countP_isCycle_sew (spot : Point) (c : Context) :
    (sew p spot c).2.countP Instruction.isCycle = 1 := by
  obtain ⟨before, between, after, speed, hbefore, hbetween, hafter, hsew⟩ :=
    sew_around (p := p) spot c
  rw [hsew, List.countP_append, hbefore.countP_isCycle, Nat.zero_add,
    List.countP_cons_of_neg Bool.false_ne_true, List.countP_append, hbetween.countP_isCycle,
    Nat.zero_add, List.countP_cons_of_pos rfl, hafter.countP_isCycle]

theorem countP_isInsertion_sew (spot : Point) (c : Context) :
    (sew p spot c).2.countP Instruction.isInsertion = 0 := by
  obtain ⟨before, between, after, speed, hbefore, hbetween, hafter, hsew⟩ :=
    sew_around (p := p) spot c
  rw [hsew, List.countP_append, hbefore.countP_isInsertion, Nat.zero_add,
    List.countP_cons_of_neg Bool.false_ne_true, List.countP_append, hbetween.countP_isInsertion,
    Nat.zero_add, List.countP_cons_of_neg Bool.false_ne_true, hafter.countP_isInsertion]

/-! ## Steps without and with thread -/

variable (p total) in
/-- A jump or the end of the pattern writes idle instructions and leaves the thread as it is. -/
theorem step_idle {c : Context} {e : StitchEvent} (hlose : e.kind.losesThread = false)
    (hstitch : e.kind ≠ .stitch) :
    AllIdle (step p total c e).2 ∧ (step p total c e).1.threaded = c.threaded := by
  have hkind : e.kind = .jump ∨ e.kind = .finish := by
    cases h : e.kind with
    | jump => exact .inl rfl
    | finish => exact .inr rfl
    | stitch => exact absurd h hstitch
    | trim => rw [h] at hlose; exact Bool.noConfusion hlose
    | colorChange => rw [h] at hlose; exact Bool.noConfusion hlose
  obtain ⟨r, hr⟩ := step_jump_or_finish p total (c := c) hkind
  rw [hr]
  exact ⟨.append (.append (report_idle _ _) (endRun_idle _)) (.cons (freeMove_idle e) .nil), rfl⟩

variable (p total) in
/-- With the thread there, no step asks for it. -/
theorem step_threaded {c : Context} {e : StitchEvent} (hthread : c.threaded = true)
    (hlose : e.kind.losesThread = false) :
    (step p total c e).1.threaded = true ∧
      (step p total c e).2.countP Instruction.isInsertion = 0 := by
  by_cases hstitch : e.kind = .stitch
  · cases hclear : isClear p (e.position p.scalingFactor) c with
    | true =>
      obtain ⟨r, hr⟩ := step_stitch_sewn p total hstitch hthread hclear
      obtain ⟨n, hn⟩ := sew_fst (p := p) (e.position p.scalingFactor) { c with reported := r }
      rw [hr, List.countP_append, (report_idle _ _).countP_isInsertion, countP_isInsertion_sew, hn]
      exact ⟨hthread, rfl⟩
    | false =>
      obtain ⟨r, hr⟩ := step_stitch_rejected p total hstitch hthread hclear
      rw [hr]
      exact ⟨hthread, ((report_idle _ _).append (.cons (freeMove_idle e) .nil)).countP_isInsertion⟩
  · obtain ⟨hidle, hkept⟩ := step_idle p total (c := c) hlose hstitch
    exact ⟨hkept.trans hthread, hidle.countP_isInsertion⟩

variable (p total) in
/-- Without the thread, a stitch asks for it and is then sewn. -/
theorem step_inserts {c : Context} {e : StitchEvent} (hc : c.Sound) (hthread : c.threaded = false)
    (hstitch : e.kind = .stitch) :
    (step p total c e).1.threaded = true ∧
      ∃ before after, (step p total c e).2 = before ++ .pause .threadInserted :: after ∧
        AllIdle before ∧ after.countP Instruction.isInsertion = 0 ∧
        after.filter Instruction.isSewing =
          [.move .sewing (.at (e.position p.scalingFactor) p.stitchSpeed)] ∧
        after.countP Instruction.isCycle = 1 := by
  obtain ⟨r, hr⟩ := step_stitch_inserted p total hc hstitch hthread
  obtain ⟨n, hn⟩ :=
    sew_fst (p := p) (e.position p.scalingFactor) { c with reported := r, threaded := true }
  rw [hr]
  refine ⟨by rw [hn], (report p total e.index c).2 ++ [freeMove p e],
    (sew p (e.position p.scalingFactor) { c with reported := r, threaded := true }).2, ?_,
    (report_idle _ _).append (.cons (freeMove_idle e) .nil), countP_isInsertion_sew _ _,
    filter_isSewing_sew _ _, countP_isCycle_sew _ _⟩
  simp only [List.append_assoc, List.cons_append, List.nil_append]

end Context

/-! ## Pieces -/

open Context

theorem countP_flatMap_cons (k : Instruction → Bool) (c : Context) (prior : List Instruction)
    (e : StitchEvent) (es : List StitchEvent) :
    ((stages p total c prior (e :: es)).flatMap Stage.written).countP k =
      (step p total c e).2.countP k + ((stages p total (step p total c e).1
        (prior ++ (step p total c e).2) es).flatMap Stage.written).countP k := by
  rw [stages, List.flatMap_cons, List.countP_append]
  rfl

/-- With the thread there, it is not asked for in the rest of the piece. -/
theorem countP_isInsertion_of_threaded {c : Context} (hthread : c.threaded = true)
    (prior : List Instruction) {es : List StitchEvent}
    (hes : ∀ e ∈ es, e.kind.losesThread = false) :
    ((stages p total c prior es).flatMap Stage.written).countP Instruction.isInsertion = 0 := by
  -- every event of a piece keeps the thread, so the induction carries it along
  induction es generalizing c prior with
  | nil => rfl
  | cons e es ih =>
    obtain ⟨he, hes⟩ := List.forall_mem_cons.1 hes
    obtain ⟨hkept, hnone⟩ := step_threaded p total hthread he
    rw [countP_flatMap_cons, hnone, ih hkept _ hes]

/-- A piece asks for the thread once if it has a stitch, and never otherwise. -/
theorem countP_isInsertion_of_fresh {c : Context} (hc : c.Sound) (hthread : c.threaded = false)
    (prior : List Instruction) {es : List StitchEvent}
    (hes : ∀ e ∈ es, e.kind.losesThread = false) :
    ((stages p total c prior es).flatMap Stage.written).countP Instruction.isInsertion =
      if (stages p total c prior es).any Stage.isStitch then 1 else 0 := by
  induction es generalizing c prior with
  | nil => rfl
  | cons e es ih =>
    obtain ⟨he, hes⟩ := List.forall_mem_cons.1 hes
    rw [countP_flatMap_cons, stages, List.any_cons]
    by_cases hstitch : e.kind = .stitch
    · -- the thread is asked for here, and from here on it is there
      obtain ⟨hkept, before, after, hwritten, hbefore, hafter, -, -⟩ :=
        step_inserts p total hc hthread hstitch
      have hfirst : Stage.isStitch (.of p total c prior e) = true := decide_eq_true hstitch
      rw [countP_isInsertion_of_threaded hkept _ hes, hfirst, Bool.true_or, if_pos rfl, hwritten,
        List.countP_append, hbefore.countP_isInsertion, List.countP_cons_of_pos rfl, hafter]
    · obtain ⟨hidle, hkept⟩ := step_idle p total (c := c) he hstitch
      have hfirst : Stage.isStitch (.of p total c prior e) = false := decide_eq_false hstitch
      rw [hidle.countP_isInsertion, Nat.zero_add, hfirst, Bool.false_or]
      exact ih (step_sound hc e) (hkept.trans hthread) _ hes

/-- The first stitch of a piece asks for the thread before anything is sewn, and is then sewn. -/
theorem first_stitch_of_fresh {c : Context} (hc : c.Sound) (hthread : c.threaded = false)
    {prior : List Instruction} {es : List StitchEvent}
    (hes : ∀ e ∈ es, e.kind.losesThread = false) {quiet rest : List Stage} {s : Stage}
    (hsplit : stages p total c prior es = quiet ++ s :: rest)
    (hquiet : ∀ q ∈ quiet, q.isStitch = false) (hs : s.isStitch = true) :
    ∃ before after, s.written = before ++ .pause .threadInserted :: after ∧
      AllIdle (quiet.flatMap Stage.written ++ before) ∧
      after.filter Instruction.isSewing =
        [.move .sewing (.at (s.event.position p.scalingFactor) p.stitchSpeed)] ∧
      after.countP Instruction.isCycle = 1 := by
  induction es generalizing c prior quiet with
  | nil => exact absurd hsplit.symm (List.append_ne_nil_of_right_ne_nil _ (List.cons_ne_nil _ _))
  | cons e es ih =>
    obtain ⟨he, hes⟩ := List.forall_mem_cons.1 hes
    -- either the first stitch is here, or the events in front of it lose one
    cases quiet with
    | nil =>
      obtain ⟨rfl, -⟩ := List.cons.inj hsplit
      obtain ⟨-, before, after, hwritten, hbefore, -, hsewing, hcycle⟩ :=
        step_inserts p total hc hthread (of_decide_eq_true hs)
      exact ⟨before, after, hwritten, hbefore, hsewing, hcycle⟩
    | cons q quiet =>
      obtain ⟨rfl, htail⟩ := List.cons.inj hsplit
      obtain ⟨hq, hquiet⟩ := List.forall_mem_cons.1 hquiet
      obtain ⟨hidle, hkept⟩ :=
        step_idle p total (c := c) he (of_decide_eq_false hq)
      obtain ⟨before, after, hwritten, hbefore, hsewn⟩ :=
        ih (step_sound hc e) (hkept.trans hthread) hes htail hquiet
      refine ⟨before, after, hwritten, ?_, hsewn⟩
      rw [List.flatMap_cons, List.append_assoc]
      exact hidle.append hbefore

/-- A trim or a colour change leaves no thread behind. -/
theorem fresh_of_losesThread {c : Context} {e : StitchEvent} (hlose : e.kind.losesThread = true) :
    (step p total c e).1.Sound ∧ (step p total c e).1.threaded = false := by
  cases h : e.kind with
  | trim =>
    obtain ⟨r, hr⟩ := step_trim p total (c := c) h
    rw [hr]
    exact ⟨sound_of_origin rfl rfl rfl, rfl⟩
  | colorChange =>
    obtain ⟨r, hr⟩ := step_colorChange p total (c := c) h
    rw [hr]
    exact ⟨sound_of_origin rfl rfl rfl, rfl⟩
  | _ => rw [h] at hlose; exact Bool.noConfusion hlose

/-- A trim or a colour change neither asks for the thread nor sews. -/
theorem written_of_losesThread {c : Context} {e : StitchEvent} (hlose : e.kind.losesThread = true) :
    ∀ i ∈ (step p total c e).2,
      i.isInsertion = false ∧ i.isSewing = false ∧ i.isCycle = false := by
  have hfirst : AllIdle ((report p total e.index c).2 ++ (endRun c).2) :=
    (report_idle _ _).append (endRun_idle _)
  have hidle : ∀ i : Instruction, i.isIdle = true →
      i.isInsertion = false ∧ i.isSewing = false ∧ i.isCycle = false := by
    intro i hi
    obtain ⟨hsewing, hcycle, hinsertion, -⟩ := Instruction.of_isIdle hi
    exact ⟨hinsertion, hsewing, hcycle⟩
  cases h : e.kind with
  | trim =>
    obtain ⟨r, hr⟩ := step_trim p total (c := c) h
    rw [hr]
    intro i hi
    rcases List.mem_append.1 hi with hi | hi
    · exact hidle i (hfirst i hi)
    · rcases List.mem_cons.1 hi with rfl | hi
      · exact hidle _ (freeMove_idle e)
      · rw [List.mem_singleton.1 hi]
        exact ⟨rfl, rfl, rfl⟩
  | colorChange =>
    obtain ⟨r, hr⟩ := step_colorChange p total (c := c) h
    rw [hr]
    intro i hi
    rcases List.mem_append.1 hi with hi | hi
    · exact hidle i (hfirst i hi)
    · rcases List.mem_cons.1 hi with rfl | hi
      · exact ⟨rfl, rfl, rfl⟩
      · rw [List.mem_singleton.1 hi]
        exact hidle _ (freeMove_idle e)
  | _ => rw [h] at hlose; exact Bool.noConfusion hlose

/-- **Thread insertion.**  Cut the run of any events at its trims and colour changes, which ask for
    no thread and sew nothing themselves.  A piece asks for the thread once if it has a stitch and
    never otherwise.  It does so in the step of its first stitch, before any sewing move and any
    needle cycle of the piece, and that step goes on to sew the stitch. -/
theorem insertion_once_at_first_stitch (p : Parameters) (total : Nat) (events : List StitchEvent) :
    (∀ s ∈ stages p total .start [] events, s.event.kind.losesThread = true →
      ∀ i ∈ s.written, i.isInsertion = false ∧ i.isSewing = false ∧ i.isCycle = false) ∧
    ∀ piece ∈ (stages p total .start [] events).splitOnP (fun s => s.event.kind.losesThread),
      (piece.flatMap Stage.written).countP Instruction.isInsertion =
        (if piece.any Stage.isStitch then 1 else 0) ∧
      ∀ quiet s rest, piece = quiet ++ s :: rest → (∀ q ∈ quiet, q.isStitch = false) →
        s.isStitch = true →
        ∃ before after, s.written = before ++ .pause .threadInserted :: after ∧
          (∀ i ∈ quiet.flatMap Stage.written ++ before, i.isSewing = false ∧ i.isCycle = false) ∧
          after.filter Instruction.isSewing =
            [.move .sewing (.at (s.event.position p.scalingFactor) p.stitchSpeed)] ∧
          after.countP Instruction.isCycle = 1 := by
  constructor
  · intro s hs hlose
    obtain ⟨-, hstage⟩ := sound_of_mem_stages start_sound hs
    rw [hstage]
    exact written_of_losesThread hlose
  · intro piece hpiece
    obtain ⟨c, prior, es, rfl, ⟨hc, hthread⟩, hes⟩ := mem_splitOnP_stages
      (fun c => c.Sound ∧ c.threaded = false) (fun _ _ => fresh_of_losesThread)
      ⟨start_sound, rfl⟩ hpiece
    refine ⟨countP_isInsertion_of_fresh hc hthread prior hes, ?_⟩
    intro quiet s rest hsplit hquiet hs
    obtain ⟨before, after, hwritten, hbefore, hsewn⟩ :=
      first_stitch_of_fresh hc hthread hes hsplit hquiet hs
    refine ⟨before, after, hwritten, ?_, hsewn⟩
    intro i hi
    obtain ⟨hsewing, hcycle, -, -⟩ := Instruction.of_isIdle (hbefore i hi)
    exact ⟨hsewing, hcycle⟩

end
end Embroidery
