/-
  What one step of a program does.

  A step reports the progress, ends the run of stitches if its event is no stitch, and acts.  Each
  of these parts is described by the context behind it and by what it writes, and from the parts one
  lemma for each kind of event is put together.  What a step does is then one of six outcomes
  (`step_outcome`), which is all that invariants of a run need to look at.

  A context that comes up in a run is `Sound`: without thread the machine is at rest and no stitch
  counts as the last one, and with a last stitch known both latches are on.  The first of these is
  why a stitch that asks for thread is never rejected.

  Behind its report, the instructions of a step take a few forms (`step_emits`).  What holds of each
  form holds of every step.
-/
import Embroidery.Program.Step

namespace Embroidery

section
variable {p : Parameters} {total : Nat}

/-! ## Idle instructions -/

namespace Instruction

def isSewing : Instruction → Bool
  | .move .sewing _ => true
  | _ => false

def isCycle : Instruction → Bool
  | .needleCycle _ => true
  | _ => false

def isInsertion : Instruction → Bool
  | .pause .threadInserted => true
  | _ => false

def isColorStart : Instruction → Bool
  | .pause (.colorStart _) => true
  | _ => false

/-- Neither a needle cycle, a sewing move, a colour start nor an insertion of thread. -/
def isIdle (i : Instruction) : Bool :=
  !i.isSewing && !i.isCycle && !i.isInsertion && !i.isColorStart

theorem of_isIdle {i : Instruction} (h : i.isIdle = true) :
    i.isSewing = false ∧ i.isCycle = false ∧ i.isInsertion = false ∧ i.isColorStart = false := by
  simpa [isIdle, and_assoc] using h

end Instruction

/-- All instructions are idle. -/
def AllIdle (is : List Instruction) : Prop := ∀ i ∈ is, i.isIdle = true

theorem AllIdle.nil : AllIdle [] := List.forall_mem_nil _

theorem AllIdle.append {is js : List Instruction} (his : AllIdle is) (hjs : AllIdle js) :
    AllIdle (is ++ js) := by
  intro i hi
  rcases List.mem_append.1 hi with h | h
  · exact his i h
  · exact hjs i h

theorem AllIdle.cons {i : Instruction} {is : List Instruction} (hi : i.isIdle = true)
    (his : AllIdle is) : AllIdle (i :: is) := by
  intro j hj
  rcases List.mem_cons.1 hj with rfl | h
  · exact hi
  · exact his j h

theorem AllIdle.filter_isSewing {is : List Instruction} (his : AllIdle is) :
    is.filter Instruction.isSewing = [] := by
  refine List.filter_eq_nil_iff.2 ?_
  intro i hi
  obtain ⟨hsewing, -, -, -⟩ := Instruction.of_isIdle (his i hi)
  rw [hsewing]
  exact Bool.false_ne_true

theorem AllIdle.countP_isCycle {is : List Instruction} (his : AllIdle is) :
    is.countP Instruction.isCycle = 0 := by
  refine List.countP_eq_zero.2 ?_
  intro i hi
  obtain ⟨-, hcycle, -, -⟩ := Instruction.of_isIdle (his i hi)
  rw [hcycle]
  exact Bool.false_ne_true

theorem AllIdle.countP_isInsertion {is : List Instruction} (his : AllIdle is) :
    is.countP Instruction.isInsertion = 0 := by
  refine List.countP_eq_zero.2 ?_
  intro i hi
  obtain ⟨-, -, hinsertion, -⟩ := Instruction.of_isIdle (his i hi)
  rw [hinsertion]
  exact Bool.false_ne_true

/-! ## The parts of a step -/

namespace Context

variable (p total) in
theorem report_fst (index : Nat) (c : Context) :
    ∃ r, (report p total index c).1 = { c with reported := r } := by
  unfold report
  dsimp only
  split
  · exact ⟨_, rfl⟩
  · exact ⟨c.reported, rfl⟩

/-- A report is at most one line, and holds a percentage. -/
theorem mem_report {index : Nat} {c : Context} {i : Instruction}
    (h : i ∈ (report p total index c).2) : ∃ n : UInt8, n.toNat ≤ 100 ∧ i = .progress n := by
  unfold report at h
  dsimp only at h
  split at h
  · refine ⟨_, ?_, List.mem_singleton.1 h⟩
    rw [UInt8.toNat_ofNat']
    exact Nat.le_trans (Nat.mod_le _ _) (by omega)
  · exact absurd h List.not_mem_nil

theorem setTension_fst (on : Bool) (c : Context) :
    (setTension on c).1 = { c with tensionOn := on } := by
  unfold setTension
  split
  · next h => rw [← h]
  · rfl

theorem setTension_snd (on : Bool) (c : Context) :
    (setTension on c).2 = if c.tensionOn = on then [] else [.tension on, .dwell settleMillis] := by
  unfold setTension
  split <;> rfl

theorem endRun_fst (c : Context) :
    (endRun c).1 =
      { c with motorOn := false, tensionOn := false, runCount := 0, last := origin } := by
  unfold endRun
  dsimp only
  rw [setTension_fst]

theorem endRun_snd (c : Context) :
    (endRun c).2 = (if c.motorOn = true then [.spindleStop] else []) ++ (setTension false c).2 := by
  unfold endRun
  dsimp only
  rw [setTension_snd, setTension_snd]

theorem insertThread_fst (free : Instruction) (c : Context) :
    (insertThread free c).1 = { c with threaded := true, tensionOn := false } := by
  unfold insertThread
  dsimp only
  rw [setTension_fst]

theorem insertThread_snd (free : Instruction) (c : Context) :
    (insertThread free c).2 = free :: (setTension false c).2 ++ [.pause .threadInserted] := rfl

/-- A needle cycle changes the count of the run and turns the motor on. -/
theorem cycle_fst (c : Context) :
    ∃ n, (cycle p c).1 = { c with motorOn := true, runCount := n } := by
  unfold cycle
  split
  · exact ⟨_, rfl⟩
  · split
    · exact ⟨_, rfl⟩
    · exact ⟨c.runCount, rfl⟩

theorem mem_accelerate {z : Option UInt32} {i : Instruction} (h : i ∈ accelerate p z) :
    ∃ x y z, i = .acceleration x y z := by
  unfold accelerate at h
  split at h
  · exact ⟨_, _, _, List.mem_singleton.1 h⟩
  · exact absurd h List.not_mem_nil

/-- A needle cycle comes last, at most after an acceleration. -/
theorem cycle_snd (c : Context) :
    ∃ u speed, (cycle p c).2 = u ++ [.needleCycle (some speed)] ∧
      ∀ i ∈ u, ∃ x y z, i = .acceleration x y z := by
  unfold cycle
  split
  · refine ⟨_, _, rfl, ?_⟩
    split
    · exact fun _ h => mem_accelerate h
    · exact List.forall_mem_nil _
  · split
    · exact ⟨_, _, rfl, fun _ h => mem_accelerate h⟩
    · exact ⟨[], _, rfl, List.forall_mem_nil _⟩

theorem trimAnchor_fst (c : Context) : ∃ n, (trimAnchor c).1 = { c with runCount := n } := by
  unfold trimAnchor
  split
  · exact ⟨_, rfl⟩
  · exact ⟨c.runCount, rfl⟩

theorem mem_trimAnchor {c : Context} {i : Instruction} (h : i ∈ (trimAnchor c).2) :
    i = .pause .trim := by
  unfold trimAnchor at h
  split at h
  · exact List.mem_singleton.1 h
  · exact absurd h List.not_mem_nil

theorem sew_fst (spot : Point) (c : Context) :
    ∃ n, (sew p spot c).1 =
      { c with motorOn := true, tensionOn := true, runCount := n, last := spot } := by
  unfold sew
  dsimp only
  rw [setTension_fst]
  obtain ⟨m, hm⟩ := cycle_fst (p := p) { c with last := spot, tensionOn := true }
  rw [hm]
  obtain ⟨n, hn⟩ :=
    trimAnchor_fst { c with last := spot, tensionOn := true, motorOn := true, runCount := m }
  exact ⟨n, hn⟩

/-- A stitch is sewn by one sewing move and one needle cycle behind it; the acceleration may be set
    between them and the loose end trimmed behind them. -/
theorem sew_snd (spot : Point) (c : Context) :
    ∃ u v speed, (∀ i ∈ u, ∃ x y z, i = .acceleration x y z) ∧ (∀ i ∈ v, i = .pause .trim) ∧
      (sew p spot c).2 = (setTension true c).2 ++ .move .sewing (.at spot p.stitchSpeed) ::
        (u ++ .needleCycle (some speed) :: v) := by
  unfold sew
  dsimp only
  obtain ⟨u, speed, hu, haccelerate⟩ :=
    cycle_snd (p := p) (setTension true { c with last := spot }).1
  rw [hu, setTension_snd, setTension_snd]
  refine ⟨u, (trimAnchor (cycle p (setTension true { c with last := spot }).1).1).2, speed,
    haccelerate, fun i hi => mem_trimAnchor hi, ?_⟩
  simp only [List.append_assoc, List.cons_append, List.nil_append]

/-! ## Idle parts -/

theorem report_idle (index : Nat) (c : Context) : AllIdle (report p total index c).2 := by
  intro i hi
  obtain ⟨n, -, rfl⟩ := mem_report hi
  rfl

theorem setTension_idle (on : Bool) (c : Context) : AllIdle (setTension on c).2 := by
  rw [setTension_snd]
  split
  · exact AllIdle.nil
  · exact AllIdle.cons rfl (AllIdle.cons rfl AllIdle.nil)

theorem endRun_idle (c : Context) : AllIdle (endRun c).2 := by
  rw [endRun_snd]
  refine AllIdle.append ?_ (setTension_idle false c)
  split
  · exact AllIdle.cons rfl AllIdle.nil
  · exact AllIdle.nil

/-! ## What a step does -/

/-- The move without sewing to the position of an event. -/
def freeMove (p : Parameters) (e : StitchEvent) : Instruction :=
  .move .free (.at (e.position p.scalingFactor) p.jumpSpeed)

theorem freeMove_idle (e : StitchEvent) : (freeMove p e).isIdle = true := rfl

/-- The context with the run ended and a report made. -/
def rested (c : Context) (r : Int) : Context :=
  { c with motorOn := false, tensionOn := false, runCount := 0, last := origin, reported := r }

variable (p total) in
/-- An event that is no stitch reports, ends the run and acts. -/
theorem step_of_ne_stitch {c : Context} {e : StitchEvent} (h : e.kind ≠ .stitch) :
    ∃ r, step p total c e =
      ((act p e.kind (e.position p.scalingFactor) (c.rested r)).1,
        (report p total e.index c).2 ++ (endRun c).2
          ++ (act p e.kind (e.position p.scalingFactor) (c.rested r)).2) := by
  obtain ⟨r, hr⟩ := report_fst p total e.index c
  refine ⟨r, ?_⟩
  -- the report changes nothing that the end of a run looks at
  have hsnd : (endRun { c with reported := r }).2 = (endRun c).2 := by
    rw [endRun_snd, endRun_snd, setTension_snd, setTension_snd]
  unfold step
  dsimp only
  rw [if_neg h, hr, endRun_fst, hsnd]
  rfl

variable (p total) in
theorem step_jump_or_finish {c : Context} {e : StitchEvent}
    (h : e.kind = .jump ∨ e.kind = .finish) :
    ∃ r, step p total c e =
      (c.rested r, (report p total e.index c).2 ++ (endRun c).2 ++ [freeMove p e]) := by
  rcases h with h | h <;>
  · obtain ⟨r, hr⟩ := step_of_ne_stitch p total (c := c) (e := e) (by simp [h])
    refine ⟨r, ?_⟩
    rw [hr, h]
    rfl

variable (p total) in
theorem step_trim {c : Context} {e : StitchEvent} (h : e.kind = .trim) :
    ∃ r, step p total c e =
      ({ c.rested r with threaded := false },
        (report p total e.index c).2 ++ (endRun c).2 ++ [freeMove p e, .pause .trim]) := by
  obtain ⟨r, hr⟩ := step_of_ne_stitch p total (c := c) (e := e) (by simp [h])
  refine ⟨r, ?_⟩
  rw [hr, h]
  rfl

variable (p total) in
theorem step_colorChange {c : Context} {e : StitchEvent} (h : e.kind = .colorChange) :
    ∃ r, step p total c e =
      ({ c.rested r with threaded := false, color := c.color + 1 },
        (report p total e.index c).2 ++ (endRun c).2
          ++ [.pause (.colorStart c.nextColor), freeMove p e]) := by
  obtain ⟨r, hr⟩ := step_of_ne_stitch p total (c := c) (e := e) (by simp [h])
  refine ⟨r, ?_⟩
  rw [hr, h]
  rfl

variable (p total) in
/-- A stitch reports and acts. -/
theorem step_of_stitch {c : Context} {e : StitchEvent} (h : e.kind = .stitch) :
    ∃ r, step p total c e =
      ((stitch p (e.position p.scalingFactor) (freeMove p e) { c with reported := r }).1,
        (report p total e.index c).2
          ++ (stitch p (e.position p.scalingFactor) (freeMove p e) { c with reported := r }).2) := by
  obtain ⟨r, hr⟩ := report_fst p total e.index c
  refine ⟨r, ?_⟩
  unfold step
  dsimp only
  rw [if_pos h, hr, h, List.append_nil]
  rfl

theorem stitch_rejected {c : Context} {spot : Point} (free : Instruction)
    (hthread : c.threaded = true) (hclear : isClear p spot c = false) :
    stitch p spot free c = (c, [free]) := by
  unfold stitch
  rw [if_pos hthread]
  dsimp only
  rw [if_neg (by simp [hclear])]
  rfl

theorem stitch_sewn {c : Context} {spot : Point} (free : Instruction)
    (hthread : c.threaded = true) (hclear : isClear p spot c = true) :
    stitch p spot free c = sew p spot c := by
  unfold stitch
  rw [if_pos hthread]
  dsimp only
  rw [if_pos hclear]
  rfl

theorem stitch_inserted {c : Context} {spot : Point} (free : Instruction)
    (hthread : c.threaded = false) (hslack : c.tensionOn = false)
    (hlast : c.last.isOrigin = true) :
    stitch p spot free c =
      ((sew p spot { c with threaded := true }).1,
        [free, .pause .threadInserted] ++ (sew p spot { c with threaded := true }).2) := by
  have hfst : (insertThread free c).1 = { c with threaded := true } := by
    rw [insertThread_fst, ← hslack]
  have hsnd : (insertThread free c).2 = [free, .pause .threadInserted] := by
    rw [insertThread_snd, setTension_snd, if_pos hslack]
    rfl
  -- where no stitch counts as the last one, none can be too close to it
  have hclear : isClear p spot { c with threaded := true } = true := by
    rw [isClear, hlast, Bool.true_or]
  unfold stitch
  rw [if_neg (by simp [hthread])]
  dsimp only
  rw [hfst, hsnd, if_pos hclear]

variable (p total) in
/-- A stitch that is not clear of the last one is only moved to. -/
theorem step_stitch_rejected {c : Context} {e : StitchEvent} (h : e.kind = .stitch)
    (hthread : c.threaded = true) (hclear : isClear p (e.position p.scalingFactor) c = false) :
    ∃ r, step p total c e =
      ({ c with reported := r }, (report p total e.index c).2 ++ [freeMove p e]) := by
  obtain ⟨r, hr⟩ := step_of_stitch p total (c := c) h
  have hclear' : isClear p (e.position p.scalingFactor) { c with reported := r } = false := hclear
  refine ⟨r, ?_⟩
  rw [hr, stitch_rejected (c := { c with reported := r }) _ hthread hclear']

variable (p total) in
/-- A stitch that is clear of the last one is sewn. -/
theorem step_stitch_sewn {c : Context} {e : StitchEvent} (h : e.kind = .stitch)
    (hthread : c.threaded = true) (hclear : isClear p (e.position p.scalingFactor) c = true) :
    ∃ r, step p total c e =
      ((sew p (e.position p.scalingFactor) { c with reported := r }).1,
        (report p total e.index c).2
          ++ (sew p (e.position p.scalingFactor) { c with reported := r }).2) := by
  obtain ⟨r, hr⟩ := step_of_stitch p total (c := c) h
  have hclear' : isClear p (e.position p.scalingFactor) { c with reported := r } = true := hclear
  refine ⟨r, ?_⟩
  rw [hr, stitch_sewn (c := { c with reported := r }) _ hthread hclear']

/-! ## Sound contexts -/

/-- What the fields of a context say about one another throughout a run. -/
structure Sound (c : Context) : Prop where
  /-- Without thread the machine is at rest, and no stitch counts as the last one. -/
  slack : c.threaded = false → c.last = origin ∧ c.motorOn = false ∧ c.tensionOn = false
  /-- With a last stitch known the machine is sewing. -/
  taut : c.last.isOrigin = false → c.motorOn = true ∧ c.tensionOn = true

theorem isOrigin_origin : origin.isOrigin = true := by decide +kernel

variable (p total) in
/-- A stitch without thread has it inserted and is sewn, whatever the clearance. -/
theorem step_stitch_inserted {c : Context} {e : StitchEvent} (hc : c.Sound)
    (h : e.kind = .stitch) (hthread : c.threaded = false) :
    ∃ r, step p total c e =
      ((sew p (e.position p.scalingFactor) { c with reported := r, threaded := true }).1,
        (report p total e.index c).2 ++ ([freeMove p e, .pause .threadInserted]
          ++ (sew p (e.position p.scalingFactor) { c with reported := r, threaded := true }).2)) := by
  obtain ⟨r, hr⟩ := step_of_stitch p total (c := c) h
  obtain ⟨hlast, -, hslack⟩ := hc.slack hthread
  have horigin : c.last.isOrigin = true := by rw [hlast, isOrigin_origin]
  refine ⟨r, ?_⟩
  rw [hr, stitch_inserted (c := { c with reported := r }) _ hthread hslack horigin]

/-- Where no stitch counts as the last one, nothing is asked of the latches. -/
theorem sound_of_origin {c : Context} (hlast : c.last = origin) (hmotor : c.motorOn = false)
    (htension : c.tensionOn = false) : c.Sound := by
  constructor
  · intro _
    exact ⟨hlast, hmotor, htension⟩
  · intro h
    rw [hlast, isOrigin_origin] at h
    exact Bool.noConfusion h

theorem start_sound : start.Sound := sound_of_origin rfl rfl rfl

/-- A stitch that is sewn leaves a sound context behind, if the thread was there. -/
theorem sew_sound {c : Context} (h : c.threaded = true) (spot : Point) :
    (sew p spot c).1.Sound := by
  obtain ⟨n, hn⟩ := sew_fst (p := p) spot c
  rw [hn]
  constructor
  · intro hno
    exact Bool.noConfusion (h.symm.trans hno)
  · intro _
    exact ⟨rfl, rfl⟩

/-! ## Outcomes -/

/-- What a step can do: the context behind it and what it writes. -/
inductive Outcome (p : Parameters) (total : Nat) (c : Context) (e : StitchEvent) : After → Prop
  /-- A jump or the end of the pattern ends the run and moves. -/
  | moved (r : Int) (h : e.kind = .jump ∨ e.kind = .finish) :
    Outcome p total c e
      (c.rested r, (report p total e.index c).2 ++ (endRun c).2 ++ [freeMove p e])
  /-- A trim also takes the thread. -/
  | trimmed (r : Int) (h : e.kind = .trim) :
    Outcome p total c e
      ({ c.rested r with threaded := false },
        (report p total e.index c).2 ++ (endRun c).2 ++ [freeMove p e, .pause .trim])
  /-- A colour change also counts the colours. -/
  | recolored (r : Int) (h : e.kind = .colorChange) :
    Outcome p total c e
      ({ c.rested r with threaded := false, color := c.color + 1 },
        (report p total e.index c).2 ++ (endRun c).2
          ++ [.pause (.colorStart c.nextColor), freeMove p e])
  /-- A stitch without thread has it inserted and is sewn, whatever the clearance. -/
  | inserted (r : Int) (h : e.kind = .stitch) (hthread : c.threaded = false) :
    Outcome p total c e
      ((sew p (e.position p.scalingFactor) { c with reported := r, threaded := true }).1,
        (report p total e.index c).2 ++ ([freeMove p e, .pause .threadInserted]
          ++ (sew p (e.position p.scalingFactor) { c with reported := r, threaded := true }).2))
  /-- A stitch that is clear of the last one is sewn. -/
  | sewn (r : Int) (h : e.kind = .stitch) (hthread : c.threaded = true) :
    Outcome p total c e
      ((sew p (e.position p.scalingFactor) { c with reported := r }).1,
        (report p total e.index c).2
          ++ (sew p (e.position p.scalingFactor) { c with reported := r }).2)
  /-- A stitch that is not clear of the last one is only moved to. -/
  | rejected (r : Int) (h : e.kind = .stitch) (hthread : c.threaded = true)
      (hlast : c.last.isOrigin = false) :
    Outcome p total c e
      ({ c with reported := r }, (report p total e.index c).2 ++ [freeMove p e])

variable (p total) in
/-- A step from a sound context has one of the six outcomes. -/
theorem step_outcome {c : Context} (hc : c.Sound) (e : StitchEvent) :
    Outcome p total c e (step p total c e) := by
  cases h : e.kind with
  | jump =>
    obtain ⟨r, hr⟩ := step_jump_or_finish p total (c := c) (.inl h)
    exact hr ▸ .moved r (.inl h)
  | finish =>
    obtain ⟨r, hr⟩ := step_jump_or_finish p total (c := c) (.inr h)
    exact hr ▸ .moved r (.inr h)
  | trim =>
    obtain ⟨r, hr⟩ := step_trim p total (c := c) h
    exact hr ▸ .trimmed r h
  | colorChange =>
    obtain ⟨r, hr⟩ := step_colorChange p total (c := c) h
    exact hr ▸ .recolored r h
  | stitch =>
    cases hthread : c.threaded with
    | false =>
      obtain ⟨r, hr⟩ := step_stitch_inserted p total hc h hthread
      exact hr ▸ .inserted r h hthread
    | true =>
      cases hclear : isClear p (e.position p.scalingFactor) c with
      | true =>
        obtain ⟨r, hr⟩ := step_stitch_sewn p total h hthread hclear
        exact hr ▸ .sewn r h hthread
      | false =>
        obtain ⟨r, hr⟩ := step_stitch_rejected p total h hthread hclear
        -- a stitch that is too close is close to a last one, so there is one
        rw [isClear] at hclear
        exact hr ▸ .rejected r h hthread (Bool.or_eq_false_iff.1 hclear).1

/-- Every step keeps a context sound. -/
theorem step_sound {c : Context} (hc : c.Sound) (e : StitchEvent) :
    (step p total c e).1.Sound := by
  have houtcome := step_outcome p total hc e
  generalize step p total c e = after at houtcome ⊢
  cases houtcome with
  | moved r h => exact sound_of_origin rfl rfl rfl
  | trimmed r h => exact sound_of_origin rfl rfl rfl
  | recolored r h => exact sound_of_origin rfl rfl rfl
  | inserted r h hthread => exact sew_sound rfl _
  | sewn r h hthread => exact sew_sound (c := { c with reported := r }) hthread _
  | rejected r h hthread hlast => exact ⟨hc.slack, hc.taut⟩

/-! ## What a step can write -/

/-- The forms of the instructions that a step writes behind its report. -/
inductive Emitted (p : Parameters) (c : Context) (e : StitchEvent) : Instruction → Prop
  | spindleStop : Emitted p c e .spindleStop
  | tension (on : Bool) : Emitted p c e (.tension on)
  | settle : Emitted p c e (.dwell settleMillis)
  | free : Emitted p c e (freeMove p e)
  | sewing : Emitted p c e (.move .sewing (.at (e.position p.scalingFactor) p.stitchSpeed))
  | acceleration (x y z : Option UInt32) : Emitted p c e (.acceleration x y z)
  | needleCycle (speed : UInt32) : Emitted p c e (.needleCycle (some speed))
  | threadInserted : Emitted p c e (.pause .threadInserted)
  | trim : Emitted p c e (.pause .trim)
  | colorStart : Emitted p c e (.pause (.colorStart c.nextColor))

variable {c : Context} {e : StitchEvent}

theorem setTension_emits (on : Bool) (c' : Context) :
    ∀ i ∈ (setTension on c').2, Emitted p c e i := by
  rw [setTension_snd]
  split
  · exact List.forall_mem_nil _
  · exact List.forall_mem_cons.2 ⟨.tension on, List.forall_mem_singleton.2 .settle⟩

theorem endRun_emits (c' : Context) : ∀ i ∈ (endRun c').2, Emitted p c e i := by
  rw [endRun_snd]
  refine List.forall_mem_append.2 ⟨?_, setTension_emits false c'⟩
  split
  · exact List.forall_mem_singleton.2 .spindleStop
  · exact List.forall_mem_nil _

theorem sew_emits (c' : Context) :
    ∀ i ∈ (sew p (e.position p.scalingFactor) c').2, Emitted p c e i := by
  obtain ⟨u, v, speed, hu, hv, hsew⟩ := sew_snd (p := p) (e.position p.scalingFactor) c'
  rw [hsew]
  intro i hi
  rcases List.mem_append.1 hi with hi | hi
  · exact setTension_emits true c' i hi
  rcases List.mem_cons.1 hi with rfl | hi
  · exact .sewing
  rcases List.mem_append.1 hi with hi | hi
  · obtain ⟨x, y, z, rfl⟩ := hu i hi
    exact .acceleration x y z
  rcases List.mem_cons.1 hi with rfl | hi
  · exact .needleCycle speed
  · rw [hv i hi]
    exact .trim

variable (p total e) in
/-- A step writes its report and behind it instructions of these forms. -/
theorem step_emits (hc : c.Sound) :
    ∃ acted, (step p total c e).2 = (report p total e.index c).2 ++ acted ∧
      ∀ i ∈ acted, Emitted p c e i := by
  have houtcome := step_outcome p total hc e
  have hended := endRun_emits (p := p) (c := c) (e := e) c
  generalize step p total c e = after at houtcome ⊢
  cases houtcome with
  | moved r h =>
    exact ⟨_, List.append_assoc .., List.forall_mem_append.2
      ⟨hended, List.forall_mem_singleton.2 .free⟩⟩
  | trimmed r h =>
    have htrim : ∀ i ∈ [freeMove p e, .pause .trim], Emitted p c e i :=
      List.forall_mem_cons.2 ⟨.free, List.forall_mem_singleton.2 .trim⟩
    exact ⟨_, List.append_assoc .., List.forall_mem_append.2 ⟨hended, htrim⟩⟩
  | recolored r h =>
    have hstart : ∀ i ∈ [.pause (.colorStart c.nextColor), freeMove p e], Emitted p c e i :=
      List.forall_mem_cons.2 ⟨.colorStart, List.forall_mem_singleton.2 .free⟩
    exact ⟨_, List.append_assoc .., List.forall_mem_append.2 ⟨hended, hstart⟩⟩
  | inserted r h hthread =>
    have hinsert : ∀ i ∈ [freeMove p e, .pause .threadInserted], Emitted p c e i :=
      List.forall_mem_cons.2 ⟨.free, List.forall_mem_singleton.2 .threadInserted⟩
    exact ⟨_, rfl, List.forall_mem_append.2 ⟨hinsert, sew_emits _⟩⟩
  | sewn r h hthread => exact ⟨_, rfl, sew_emits _⟩
  | rejected r h hthread hlast => exact ⟨_, rfl, List.forall_mem_singleton.2 .free⟩

/-- An instruction of a step is a report or has one of the forms. -/
theorem mem_step (hc : c.Sound) {i : Instruction} (h : i ∈ (step p total c e).2) :
    (∃ n : UInt8, n.toNat ≤ 100 ∧ i = .progress n) ∨ Emitted p c e i := by
  obtain ⟨acted, hstep, hacted⟩ := step_emits p total e hc
  rw [hstep] at h
  rcases List.mem_append.1 h with h | h
  · exact .inl (mem_report h)
  · exact .inr (hacted i h)

end Context

end
end Embroidery
