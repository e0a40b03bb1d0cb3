/-
  How a program reports progress.

  A step reports when progress differs from the last report by at least the step of the parameters.
  While the indices of the events rise, progress does not fall (`progressAt_mono`), so each report
  is that much above the last one (`rises_of_mem_stages`).

  The progress that is remembered is not capped, the percentage that is written is.  So percentages
  rise by the step as long as they are below a hundred, but a hundred can be written too early and
  again (`progress_law`).  This happens exactly if some report beyond a hundred comes from less than
  a step below it, which takes indices beyond the number of events.
-/
import Embroidery.Proofs.Number.Percentage
import Embroidery.Proofs.Program.Written

namespace Embroidery

-- Powers of naturals are those of core, whatever other instances are at hand.
attribute [local instance (2000)] instPowNat

/-! ## Percentages -/

/-- The percentage that an instruction reports, if it does. -/
def Instruction.percent? : Instruction → Option Nat
  | .progress percent => some percent.toNat
  | _ => none

/-- The percentages that lines report. -/
def percents (lines : List String) : List Nat :=
  (instructionsOf lines).filterMap Instruction.percent?

/-- Percentages up to a hundred, each larger than those before it, by a step at least. -/
def Climbs (step : Nat) (values : List Nat) : Prop :=
  values.Pairwise (fun a b => a < b ∧ a + step ≤ b) ∧ ∀ a ∈ values, a ≤ 100

/-- The percentage that is written for a progress. -/
def capped (progress : Int) : Nat := (max 0 (min 100 progress)).toNat

/-- The event is met without a report, with one up to a hundred, or with one that comes from at
    least a step below a hundred. -/
def Stage.ReportsInStep (p : Parameters) (s : Stage) : Prop :=
  s.next.reported = s.context.reported ∨ s.next.reported ≤ 100 ∨
    s.context.reported + p.progressStep.toNat ≤ 100

section
variable {p : Parameters} {total : Nat}

/-! ## The report of a step -/

namespace Context

theorem percent?_of_emitted {c : Context} {e : StitchEvent} {i : Instruction}
    (h : Emitted p c e i) : i.percent? = none := by
  cases h <;> rfl

theorem stitch_reported (spot : Point) (free : Instruction) (c : Context) :
    (stitch p spot free c).1.reported = c.reported := by
  have hsew : ∀ c' : Context, (sew p spot c').1.reported = c'.reported := by
    intro c'
    obtain ⟨n, hn⟩ := sew_fst (p := p) spot c'
    rw [hn]
  have hinsert : (insertThread free c).1.reported = c.reported := by
    rw [insertThread_fst]
  unfold stitch
  cases c.threaded with
  | true =>
    rw [if_pos rfl]
    dsimp only
    split
    · exact hsew c
    · rfl
  | false =>
    rw [if_neg Bool.false_ne_true]
    dsimp only
    split
    · exact (hsew _).trans hinsert
    · exact hinsert

variable (p total) in
/-- The rest of a step keeps what was reported. -/
theorem step_reported (c : Context) (e : StitchEvent) :
    (step p total c e).1.reported = (report p total e.index c).1.reported := by
  have hact : ∀ c' : Context,
      (act p e.kind (e.position p.scalingFactor) c').1.reported = c'.reported := by
    intro c'
    cases e.kind with
    | stitch => exact stitch_reported _ _ c'
    | _ => rfl
  unfold step
  dsimp only
  rw [hact]
  split
  · rfl
  · rw [endRun_fst]

/-- A report is made of progress that differs enough, and not otherwise. -/
theorem report_cases (p : Parameters) (total index : Nat) (c : Context) :
    report p total index c = (c, []) ∨
      (report p total index c = ({ c with reported := progressAt total index },
          [.progress (UInt8.ofNat (capped (progressAt total index)))]) ∧
        p.progressStep.toNat ≤ (progressAt total index - c.reported).natAbs) := by
  unfold report
  dsimp only
  split
  · next h => exact .inr ⟨rfl, h⟩
  · exact .inl rfl

theorem percent?_progress (progress : Int) :
    (Instruction.progress (UInt8.ofNat (capped progress))).percent? = some (capped progress) := by
  have hsmall : capped progress % 256 = capped progress := by
    refine Nat.mod_eq_of_lt ?_
    unfold capped
    omega
  show some (UInt8.ofNat (capped progress)).toNat = _
  rw [UInt8.toNat_ofNat']
  exact congrArg some hsmall

variable (p total) in
/-- The percentages of a step: none, or that of a progress that differs enough. -/
theorem step_percents {c : Context} (hc : c.Sound) (e : StitchEvent) :
    ((step p total c e).2.filterMap Instruction.percent? = [] ∧
        (step p total c e).1.reported = c.reported) ∨
      ((step p total c e).2.filterMap Instruction.percent? =
          [capped (step p total c e).1.reported] ∧
        (step p total c e).1.reported = progressAt total e.index ∧
        p.progressStep.toNat ≤ (progressAt total e.index - c.reported).natAbs) := by
  obtain ⟨acted, hstep, hacted⟩ := step_emits p total e hc
  have hnone : acted.filterMap Instruction.percent? = [] :=
    List.filterMap_eq_nil_iff.2 fun i hi => percent?_of_emitted (hacted i hi)
  rw [step_reported, hstep, List.filterMap_append, hnone, List.append_nil]
  rcases report_cases p total e.index c with h | ⟨h, hdiffers⟩
  · rw [h]
    exact .inl ⟨rfl, rfl⟩
  · rw [h]
    refine .inr ⟨?_, rfl, hdiffers⟩
    rw [List.filterMap_cons_some (percent?_progress _)]
    rfl

end Context

/-! ## The reports of a run -/

/-- The run lemma: percentages are related throughout, if each is to the one before it. -/
theorem pairwise_percents_iff {R : Nat → Nat → Prop} (htrans : ∀ {a b c}, R a b → R b c → R a c)
    (hstep : 0 < p.progressStep.toNat) {c : Context} (hc : c.Sound) (prior : List Instruction)
    (events : List StitchEvent) :
    (capped c.reported :: ((stages p total c prior events).flatMap Stage.written).filterMap
        Instruction.percent?).Pairwise R ↔
      ∀ s ∈ stages p total c prior events, s.next.reported = s.context.reported ∨
        R (capped s.context.reported) (capped s.next.reported) := by
  -- the percentage in front is the one that was written last
  induction events generalizing c prior with
  | nil =>
    exact ⟨fun _ => List.forall_mem_nil _, fun _ => List.pairwise_singleton R _⟩
  | cons e events ih =>
    have hsound : (Context.step p total c e).1.Sound := Context.step_sound hc e
    have hrest := ih hsound (prior ++ (Context.step p total c e).2)
    rw [stages, List.flatMap_cons, List.filterMap_append, List.forall_mem_cons, ← hrest]
    show (capped c.reported :: ((Context.step p total c e).2.filterMap Instruction.percent? ++
      _)).Pairwise R ↔ ((Context.step p total c e).1.reported = c.reported ∨
        R (capped c.reported) (capped (Context.step p total c e).1.reported)) ∧ _
    rcases Context.step_percents p total hc e with ⟨hnone, hkept⟩ | ⟨hone, hreported, hdiffers⟩
    · rw [hnone, hkept, List.nil_append]
      exact ⟨fun h => ⟨.inl rfl, h⟩, fun h => h.2⟩
    · have hne : (Context.step p total c e).1.reported ≠ c.reported := by
        omega
      rw [hone, List.singleton_append, List.pairwise_cons]
      constructor
      · rintro ⟨hfirst, h⟩
        exact ⟨.inr (hfirst _ List.mem_cons_self), h⟩
      · rintro ⟨hfirst, h⟩
        have hfirst := hfirst.resolve_left hne
        refine ⟨List.forall_mem_cons.2 ⟨hfirst, ?_⟩, h⟩
        intro b hb
        exact htrans hfirst ((List.pairwise_cons.1 h).1 b hb)

/-- What a check finds of the first of some events. -/
theorem of_checkEvents_cons {previous : Option Nat} {e : StitchEvent} {rest : List StitchEvent}
    (h : checkEvents previous (e :: rest) = none) :
    (∀ q ∈ previous, q < e.index) ∧ checkEvents (some e.index) rest = none := by
  unfold checkEvents at h
  split at h
  · exact nomatch h
  · cases previous with
    | none => exact ⟨fun q hq => absurd hq.symm (Option.some_ne_none q), h⟩
    | some q =>
      dsimp only at h
      split at h
      · exact nomatch h
      · refine ⟨?_, h⟩
        intro q' hq'
        rw [← Option.some.inj hq']
        omega

/-- While the indices rise, so do the reports, by the step at least. -/
theorem rises_of_mem_stages {previous : Option Nat} {events : List StitchEvent}
    (hevents : checkEvents previous events = none) {c : Context} (hc : c.Sound)
    (hzero : 0 ≤ c.reported)
    (hbelow : ∀ index, (∀ q ∈ previous, q < index) → c.reported ≤ progressAt total index)
    (prior : List Instruction) :
    ∀ s ∈ stages p total c prior events, 0 ≤ s.context.reported ∧
      (s.next.reported = s.context.reported ∨
        (s.next.reported = progressAt total s.event.index ∧
          s.context.reported + p.progressStep.toNat ≤ s.next.reported)) := by
  -- the last report is not above the progress of any event to come
  induction events generalizing previous c prior with
  | nil => exact List.forall_mem_nil _
  | cons e events ih =>
    obtain ⟨hindex, hrest⟩ := of_checkEvents_cons hevents
    have hreached := hbelow e.index hindex
    have hahead : ∀ index, (∀ q ∈ some e.index, q < index) →
        0 ≤ progressAt total e.index ∧ progressAt total e.index ≤ progressAt total index := by
      intro index h
      exact progressAt_mono total (Nat.le_of_lt (h e.index rfl))
    have hsound : (Context.step p total c e).1.Sound := Context.step_sound hc e
    rw [stages]
    refine List.forall_mem_cons.2 ?_
    show (0 ≤ c.reported ∧ ((Context.step p total c e).1.reported = c.reported ∨ _)) ∧ _
    rcases Context.step_percents p total hc e with ⟨-, hkept⟩ | ⟨-, hreported, hdiffers⟩
    · refine ⟨⟨hzero, .inl hkept⟩, ih hrest hsound (hkept ▸ hzero) ?_ _⟩
      intro index h
      rw [hkept]
      exact Int.le_trans hreached (hahead index h).2
    · refine ⟨⟨hzero, .inr ⟨hreported, ?_⟩⟩, ih hrest hsound ?_ ?_ _⟩
      · show c.reported + _ ≤ (Context.step p total c e).1.reported
        rw [hreported]
        omega
      · rw [hreported]
        exact (progressAt_mono total (Nat.le_refl _)).1
      · intro index h
        rw [hreported]
        exact (hahead index h).2

/-! ## Programs -/

theorem percents_visitAll (corners : List Point) :
    (visitAll p corners).filterMap Instruction.percent? = [] := by
  induction corners with
  | nil => rfl
  | cons corner rest ih =>
    cases rest with
    | nil => rfl
    | cons next rest => exact ih

/-- The header reports zero. -/
theorem percents_programHeader (survey : Survey) :
    (programHeader p survey none).filterMap Instruction.percent? = [0] := by
  obtain ⟨corners, hvisited, hheader⟩ := programHeader_parts p survey
  have hcorners : corners.filterMap Instruction.percent? = [] := by
    rcases hvisited with rfl | ⟨b, -, rfl⟩
    · rfl
    · exact percents_visitAll b.corners
  have haccelerate :
      (Context.accelerate p p.zLowAcceleration).filterMap Instruction.percent? = [] := by
    refine List.filterMap_eq_nil_iff.2 ?_
    intro i hi
    obtain ⟨x, y, z, rfl⟩ := Context.mem_accelerate hi
    rfl
  rw [hheader]
  simp only [List.filterMap_append, hcorners, haccelerate]
  rfl

/-- A program reports zero in its header, and then what its stages report. -/
theorem percents_programLines (p : Parameters) (pattern : Pattern) :
    percents (programLines p pattern) =
      0 :: ((programStages p pattern).flatMap Stage.written).filterMap Instruction.percent? := by
  obtain ⟨name, events⟩ := pattern
  have hreread : ∀ is : List Instruction,
      (is.map Instruction.reread).filterMap Instruction.percent? =
        is.filterMap Instruction.percent? := by
    intro is
    rw [List.filterMap_map]
    refine congrArg (fun f => is.filterMap f) (funext fun i => ?_)
    cases i <;> rfl
  have hunnamed : percents (programLines p ⟨none, events⟩) =
      0 :: (Context.run p events.length .start events).2.filterMap Instruction.percent? := by
    rw [percents, programLines, instructionsOf_map_text (programOf_writable p events), hreread,
      programOf, List.filterMap_append, List.filterMap_append, percents_programHeader]
    exact List.append_nil _
  rw [programStages, flatMap_written_stages]
  cases name with
  | none => exact hunnamed
  | some name =>
    have htitle : percents (titleLine name :: programLines p ⟨none, events⟩) =
        percents (programLines p ⟨none, events⟩) := by
      have hcomment : ∃ text, Instruction.parse (titleLine name) = .ok (.comment text) := by
        rw [Instruction.parse, titleLine, String.toList_ofList, ofChars_semicolon]
        exact ⟨_, rfl⟩
      obtain ⟨text, hcomment⟩ := hcomment
      rw [percents, instructionsOf,
        List.filterMap_cons_some (b := .comment text) (by rw [hcomment]; rfl)]
      rfl
    rw [programLines_named, htitle]
    exact hunnamed

/-- **Progress.**  The percentages that the program of a sound pattern reports start with zero and
    do not fall, and those below a hundred rise by the step.  They rise by the step throughout
    exactly if no report beyond a hundred comes from less than a step below it, as when no index is
    beyond the number of events. -/
theorem progress_law {pattern : Pattern} {lines : List String}
    (hpattern : pattern.check = .ok pattern) (hlines : generate p pattern = .ok lines) :
    (∃ later, percents lines = 0 :: later) ∧
      (percents lines).Pairwise (fun a b =>
        a ≤ b ∧ b ≤ 100 ∧ (b < 100 → a + p.progressStep.toNat ≤ b)) ∧
      (Climbs p.progressStep.toNat (percents lines) ↔
        ∀ s ∈ programStages p pattern, s.ReportsInStep p) ∧
      (pattern.events.length < 2 ^ (64 : Nat) →
        (∀ e ∈ pattern.events, e.index ≤ pattern.events.length) →
        Climbs p.progressStep.toNat (percents lines)) := by
  obtain ⟨hp, -, rfl⟩ := of_generate hlines
  obtain ⟨-, -, -, -, hstep⟩ := Parameters.of_check hp
  have hrises : ∀ s ∈ programStages p pattern, 0 ≤ s.context.reported ∧
      (s.next.reported = s.context.reported ∨
        (s.next.reported = progressAt pattern.events.length s.event.index ∧
          s.context.reported + p.progressStep.toNat ≤ s.next.reported)) :=
    rises_of_mem_stages (check_eq_ok_iff.1 hpattern) Context.start_sound (Int.le_refl 0)
      (fun index _ => (progressAt_mono _ (Nat.le_refl index)).1) _
  have hweak : (percents (programLines p pattern)).Pairwise (fun a b =>
      a ≤ b ∧ b ≤ 100 ∧ (b < 100 → a + p.progressStep.toNat ≤ b)) := by
    rw [percents_programLines]
    refine (pairwise_percents_iff (by omega) hstep Context.start_sound _ pattern.events).2 ?_
    intro s hs
    obtain ⟨hzero, hkept | ⟨-, hrise⟩⟩ := hrises s hs
    · exact .inl hkept
    · refine .inr ?_
      unfold capped
      omega
  have hclimbs : Climbs p.progressStep.toNat (percents (programLines p pattern)) ↔
      ∀ s ∈ programStages p pattern, s.ReportsInStep p := by
    have hall : ∀ a ∈ percents (programLines p pattern), a ≤ 100 := by
      rw [percents_programLines] at hweak ⊢
      refine List.forall_mem_cons.2 ⟨Nat.zero_le _, ?_⟩
      intro b hb
      exact ((List.pairwise_cons.1 hweak).1 b hb).2.1
    rw [Climbs, and_iff_left hall, percents_programLines]
    refine (pairwise_percents_iff (by omega) hstep Context.start_sound _ pattern.events).trans ?_
    refine forall₂_congr fun s hs => ?_
    obtain ⟨hzero, hrise⟩ := hrises s hs
    unfold Stage.ReportsInStep capped
    omega
  refine ⟨⟨_, percents_programLines p pattern⟩, hweak, hclimbs, ?_⟩
  intro hlength hindices
  refine hclimbs.2 fun s hs => ?_
  obtain ⟨-, hkept | ⟨hreported, -⟩⟩ := hrises s hs
  · exact .inl hkept
  · refine .inr (.inl ?_)
    rw [hreported]
    exact progressAt_le hlength (hindices s.event (event_mem_of_mem_stages hs))

/-- Three jumps with their positions as indices. -/
theorem progress_of_three_jumps :
    let p : Parameters := {}
    let pattern : Pattern := ⟨none, [⟨0, 0, 0, .jump⟩, ⟨1, 0, 0, .jump⟩, ⟨2, 0, 0, .jump⟩]⟩
    pattern.check = .ok pattern ∧ ∃ lines, generate p pattern = .ok lines ∧
      Climbs p.progressStep.toNat (percents lines) := by
  intro p pattern
  have hpattern : pattern.check = .ok pattern := check_eq_ok_iff.2 (by decide +kernel)
  have hlines : generate p pattern = .ok (programLines p pattern) :=
    generate_eq check_default (by decide)
  obtain ⟨-, -, -, hclimbs⟩ := progress_law hpattern hlines
  exact ⟨hpattern, _, hlines, hclimbs (by decide) (by decide)⟩

/-- Two jumps with indices beyond their number: the second reports a hundred again. -/
theorem hundred_reported_twice :
    let p : Parameters := {}
    let pattern : Pattern := ⟨none, [⟨10, 0, 0, .jump⟩, ⟨20, 0, 0, .jump⟩]⟩
    pattern.check = .ok pattern ∧ ∃ lines, generate p pattern = .ok lines ∧
      percents lines = [0, 100, 100] ∧ ¬Climbs p.progressStep.toNat (percents lines) := by
  intro p pattern
  have hpercents : percents (programLines p pattern) = [0, 100, 100] := by decide +kernel
  refine ⟨check_eq_ok_iff.2 (by decide +kernel), programLines p pattern,
    generate_eq check_default (by decide), hpercents, ?_⟩
  rw [hpercents]
  rintro ⟨hrise, -⟩
  exact absurd hrise (by decide)

end
end Embroidery
