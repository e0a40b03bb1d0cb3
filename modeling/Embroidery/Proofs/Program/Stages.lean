/-
  A program as a run of stages, one for each event.

  A stage records the context in which its event is met, everything that was written before it and
  what is written for it.  The program of a pattern is its header, what its stages write, and its
  footer (`programOf_eq`).  What holds of every context and of what was written before it is proved
  once by induction on the events (`forall_mem_stages`).

  A run can be cut at the events of some kinds.  Each piece is then a run of its own, from a context
  that is as the cut left it (`mem_splitOnP_stages`).
-/
import Embroidery.Program.Generate
import Embroidery.Proofs.Program.Steps

namespace Embroidery

/-! ## Stages -/

/-- One event in the run of a program. -/
structure Stage where
  event : StitchEvent
  /-- The context in which the event is met. -/
  context : Context
  /-- Everything written before the event. -/
  prior : List Instruction
  /-- What is written for the event. -/
  written : List Instruction
  /-- The context after the event. -/
  next : Context

namespace Stage

/-- The stage of an event. -/
def of (p : Parameters) (total : Nat) (c : Context) (prior : List Instruction) (e : StitchEvent) :
    Stage where
  event := e
  context := c
  prior := prior
  written := (Context.step p total c e).2
  next := (Context.step p total c e).1

/-- The event is a stitch. -/
def isStitch (s : Stage) : Bool := s.event.kind = .stitch

end Stage

/-- The stages of a list of events, from a context and what was written before. -/
def stages (p : Parameters) (total : Nat) :
    Context → List Instruction → List StitchEvent → List Stage
  | _, _, [] => []
  | c, prior, e :: rest =>
    .of p total c prior e ::
      stages p total (Context.step p total c e).1 (prior ++ (Context.step p total c e).2) rest

/-- The stages of the program of a pattern. -/
def programStages (p : Parameters) (pattern : Pattern) : List Stage :=
  stages p pattern.events.length .start
    (programHeader p (Survey.ofEvents p.scalingFactor pattern.events) pattern.name) pattern.events

section
variable {p : Parameters} {total : Nat}

/-- The stages write what the run writes. -/
theorem flatMap_written_stages (c : Context) (prior : List Instruction)
    (events : List StitchEvent) :
    (stages p total c prior events).flatMap Stage.written = (Context.run p total c events).2 := by
  induction events generalizing c prior with
  | nil => rfl
  | cons e rest ih =>
    show (Context.step p total c e).2 ++ (stages p total _ _ rest).flatMap Stage.written = _
    rw [ih]
    rfl

theorem map_event_stages (c : Context) (prior : List Instruction) (events : List StitchEvent) :
    (stages p total c prior events).map Stage.event = events := by
  induction events generalizing c prior with
  | nil => rfl
  | cons e rest ih => exact congrArg (e :: ·) (ih _ _)

theorem event_mem_of_mem_stages {c : Context} {prior : List Instruction}
    {events : List StitchEvent} {s : Stage} (hs : s ∈ stages p total c prior events) :
    s.event ∈ events := by
  have hevent := List.mem_map_of_mem (f := Stage.event) hs
  rw [map_event_stages] at hevent
  exact hevent

/-- The run lemma: what holds at the start and is kept by every step holds at every stage. -/
theorem forall_mem_stages {I : Context → List Instruction → Prop}
    (hstep : ∀ c prior e, I c prior →
      I (Context.step p total c e).1 (prior ++ (Context.step p total c e).2))
    {c : Context} {prior : List Instruction} (hstart : I c prior) (events : List StitchEvent) :
    ∀ s ∈ stages p total c prior events,
      I s.context s.prior ∧ s = .of p total s.context s.prior s.event := by
  -- the invariant travels with the context and with what was written
  induction events generalizing c prior with
  | nil => exact List.forall_mem_nil _
  | cons e rest ih =>
    intro s hs
    rcases List.mem_cons.1 hs with rfl | hs
    · exact ⟨hstart, rfl⟩
    · exact ih (hstep c prior e hstart) s hs

/-- What is written up to the end of a stage is the start of what the run writes. -/
theorem append_written_of_mem_stages {c : Context} {prior : List Instruction}
    {events : List StitchEvent} {s : Stage} (hs : s ∈ stages p total c prior events) :
    ∃ rest, prior ++ (stages p total c prior events).flatMap Stage.written =
      s.prior ++ s.written ++ rest := by
  induction events generalizing c prior with
  | nil => exact absurd hs List.not_mem_nil
  | cons e events ih =>
    rw [stages, List.flatMap_cons, ← List.append_assoc]
    rcases List.mem_cons.1 hs with rfl | hs
    · exact ⟨_, rfl⟩
    · exact ih hs

/-- A program is its header, what its stages write, and its footer. -/
theorem programOf_eq (p : Parameters) (pattern : Pattern) :
    programOf p pattern =
      programHeader p (Survey.ofEvents p.scalingFactor pattern.events) pattern.name
        ++ (programStages p pattern).flatMap Stage.written ++ programFooter := by
  rw [programOf, programStages, flatMap_written_stages]

/-- Every stage of a run from a sound context meets its event in a sound context. -/
theorem sound_of_mem_stages {c : Context} (hc : c.Sound) {prior : List Instruction}
    {events : List StitchEvent} {s : Stage} (hs : s ∈ stages p total c prior events) :
    s.context.Sound ∧ s = .of p total s.context s.prior s.event := by
  refine forall_mem_stages (I := fun c _ => c.Sound) ?_ hc events s hs
  intro c prior e hc
  exact Context.step_sound hc e

/-! ## Pieces -/

/-- Cutting a run at the events of some kinds leaves a first piece from the context of the run, and
    further pieces from contexts as a cut leaves them. -/
theorem splitOnP_stages {cut : StitchKind → Bool} (Fresh : Context → Prop)
    (hcut : ∀ c e, cut e.kind = true → Fresh (Context.step p total c e).1) (c : Context)
    (prior : List Instruction) (events : List StitchEvent) :
    ∃ es rest, (stages p total c prior events).splitOnP (fun s => cut s.event.kind)
        = stages p total c prior es :: rest ∧
      (∀ e ∈ es, cut e.kind = false) ∧
      ∀ piece ∈ rest, ∃ c' prior' es', piece = stages p total c' prior' es' ∧ Fresh c' ∧
        ∀ e ∈ es', cut e.kind = false := by
  induction events generalizing c prior with
  | nil =>
    exact ⟨[], [], rfl, List.forall_mem_nil _, List.forall_mem_nil _⟩
  | cons e events ih =>
    obtain ⟨es, rest, hsplit, hes, hrest⟩ := ih (Context.step p total c e).1
      (prior ++ (Context.step p total c e).2)
    have hcons : (stages p total c prior (e :: events)).splitOnP (fun s => cut s.event.kind) =
        if cut e.kind = true then [] :: stages p total (Context.step p total c e).1
          (prior ++ (Context.step p total c e).2) es :: rest
        else stages p total c prior (e :: es) :: rest := by
      rw [stages, List.splitOnP_cons_eq_if_modifyHead, hsplit]
      rfl
    rw [hcons]
    -- an event that is cut away ends the first piece before it has begun
    cases he : cut e.kind with
    | true =>
      refine ⟨[], _, rfl, List.forall_mem_nil _, ?_⟩
      intro piece hpiece
      rcases List.mem_cons.1 hpiece with rfl | hpiece
      · exact ⟨_, _, es, rfl, hcut c e he, hes⟩
      · exact hrest piece hpiece
    | false => exact ⟨e :: es, rest, rfl, List.forall_mem_cons.2 ⟨he, hes⟩, hrest⟩

/-- If a run starts as a cut leaves its context, so does each of its pieces. -/
theorem mem_splitOnP_stages {cut : StitchKind → Bool} (Fresh : Context → Prop)
    (hcut : ∀ c e, cut e.kind = true → Fresh (Context.step p total c e).1) {c : Context}
    (hc : Fresh c) {prior : List Instruction} {events : List StitchEvent} {piece : List Stage}
    (h : piece ∈ (stages p total c prior events).splitOnP (fun s => cut s.event.kind)) :
    ∃ c' prior' es, piece = stages p total c' prior' es ∧ Fresh c' ∧
      ∀ e ∈ es, cut e.kind = false := by
  obtain ⟨es, rest, hsplit, hes, hrest⟩ := splitOnP_stages (p := p) Fresh hcut c prior events
  rw [hsplit] at h
  rcases List.mem_cons.1 h with rfl | h
  · exact ⟨c, prior, es, rfl, hc, hes⟩
  · exact hrest piece h

end

/-! ## Counting over pieces -/

section
variable {α β : Type}

/-- What is counted over all elements is counted over those that are cut away and the pieces. -/
theorem countP_flatMap_splitOnP (count : β → Bool) (f : α → List β) (cut : α → Bool)
    (as : List α) :
    (as.flatMap f).countP count =
      ((as.filter cut).flatMap f).countP count +
        ((as.splitOnP cut).flatMap fun piece => piece.flatMap f).countP count := by
  induction as with
  | nil => rfl
  | cons a as ih =>
    rw [List.flatMap_cons, List.countP_append, ih, List.splitOnP_cons_eq_if_modifyHead]
    cases ha : cut a with
    | true =>
      rw [List.filter_cons_of_pos ha, List.flatMap_cons, List.countP_append, if_pos rfl,
        Nat.add_assoc]
      rfl
    | false =>
      rw [List.filter_cons_of_neg (ha ▸ Bool.false_ne_true), if_neg Bool.false_ne_true]
      cases hsplit : as.splitOnP cut with
      | nil => exact absurd hsplit (List.splitOnP_ne_nil cut as)
      | cons piece rest =>
        simp only [List.modifyHead_cons, List.flatMap_cons, List.countP_append]
        omega

/-- Where each element counts for one or for none, the elements that count are counted. -/
theorem countP_flatMap_of_ite {count : β → Bool} {f : α → List β} {counts : α → Bool}
    {as : List α}
    (h : ∀ a ∈ as, (f a).countP count = if counts a = true then 1 else 0) :
    (as.flatMap f).countP count = as.countP counts := by
  induction as with
  | nil => rfl
  | cons a as ih =>
    obtain ⟨ha, has⟩ := List.forall_mem_cons.1 h
    rw [List.flatMap_cons, List.countP_append, ha, ih has, List.countP_cons, Nat.add_comm]

end
end Embroidery
