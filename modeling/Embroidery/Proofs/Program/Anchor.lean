/-
  How a run of stitches is anchored.

  Stitches that follow one another are a block, and the sewn ones of a block are numbered from one.
  The needle works by this number alone (`needleWork`): the first five stitches are slow and the
  others fast, the accelerations are set at the first stitch and at the sixth, and the loose end is
  trimmed behind the fifth (`anchor_over_blocks`).  A stitch that is left out has no number.

  The generator keeps no such number but a count that jumps from four to six, since the trim counts
  as one.  `countAfter` says which count it holds after so many stitches; five is never met.  A step
  keeps the relation (`step_in_block`), and a block starts it at zero, because every event that is
  no stitch ends the run.
-/
import Embroidery.Proofs.Program.Written

namespace Embroidery

/-! ## The work of the needle -/

namespace Instruction

def isTrim : Instruction → Bool
  | .pause .trim => true
  | _ => false

def isAcceleration : Instruction → Bool
  | .acceleration _ _ _ => true
  | _ => false

/-- A needle cycle, a trim or an acceleration. -/
def isNeedleWork (i : Instruction) : Bool := i.isCycle || i.isTrim || i.isAcceleration

/-- Neither a sewing move nor work of the needle. -/
def isQuiet (i : Instruction) : Bool := !i.isSewing && !i.isNeedleWork

end Instruction

section
variable (p : Parameters)

/-- The needle speed of a stitch, by its number in the block. -/
def needleSpeed (n : Nat) : UInt32 := if n ≤ anchorStitches then p.zLowSpeed else p.zHighSpeed

/-- The acceleration of the needle axis that belongs to this speed. -/
def needleAcceleration (n : Nat) : Option UInt32 :=
  if n ≤ anchorStitches then p.zLowAcceleration else p.zHighAcceleration

/-- The accelerations are set where the speed changes: at the first stitch and behind the anchor. -/
def profileSwitch (n : Nat) : List Instruction :=
  if n = 1 ∨ n = anchorStitches + 1 then Context.accelerate p (needleAcceleration p n) else []

/-- The loose end is trimmed behind the last stitch of the anchor. -/
def anchorTrim (n : Nat) : List Instruction := if n = anchorStitches then [.pause .trim] else []

/-- What the needle does at a stitch, by its number in the block. -/
def needleWork (n : Nat) : List Instruction :=
  profileSwitch p n ++ .needleCycle (some (needleSpeed p n)) :: anchorTrim n

end

/-- The accelerations that were last set. -/
def inForce (is : List Instruction) : Option Instruction :=
  (is.filter Instruction.isAcceleration).getLast?

/-- The accelerations that were last set are those of the stitch with this number. -/
def ProfileOf (p : Parameters) (n : Nat) (is : List Instruction) : Prop :=
  ∀ a, p.acceleration = some a →
    inForce is = some (.acceleration (some a.x) (some a.y) (needleAcceleration p n))

namespace Stage

/-- The event is sewn. -/
def sews (s : Stage) : Bool := s.written.any Instruction.isSewing

/-- The event is sewn as the stitch with this number: a sewing move with the work of the needle
    right behind it, under the accelerations of its speed. -/
def SewnAs (p : Parameters) (n : Nat) (s : Stage) : Prop :=
  ∃ lead, (∀ i ∈ lead, i.isQuiet = true) ∧
    s.written = lead ++ .move .sewing (.at (s.event.position p.scalingFactor) p.stitchSpeed) ::
      needleWork p n ∧
    ProfileOf p n (s.prior ++ (lead ++
      [.move .sewing (.at (s.event.position p.scalingFactor) p.stitchSpeed)]) ++ profileSwitch p n)

end Stage

/-- Events of any other kind end a block of stitches. -/
def StitchKind.endsBlock (kind : StitchKind) : Bool := !decide (kind = .stitch)

/-- The blocks of stitches that follow one another in a run. -/
def stitchBlocks (ss : List Stage) : List (List Stage) := ss.splitOnP fun s => !s.isStitch

/-- The number of stitches of a block that are sewn. -/
def sewnCount (block : List Stage) : Nat := block.countP Stage.sews

section
variable {p : Parameters} {total : Nat}

/-! ## Quiet instructions -/

theorem of_isQuiet {i : Instruction} (h : i.isQuiet = true) :
    i.isSewing = false ∧ i.isCycle = false ∧ i.isTrim = false ∧ i.isAcceleration = false := by
  simpa [Instruction.isQuiet, Instruction.isNeedleWork, and_assoc] using h

theorem isNeedleWork_of_isQuiet {i : Instruction} (h : i.isQuiet = true) :
    i.isNeedleWork = false := by
  obtain ⟨-, hcycle, htrim, hacceleration⟩ := of_isQuiet h
  rw [Instruction.isNeedleWork, hcycle, htrim, hacceleration]
  rfl

theorem countP_isTrim_of_quiet {is : List Instruction} (h : ∀ i ∈ is, i.isQuiet = true) :
    is.countP Instruction.isTrim = 0 := by
  refine List.countP_eq_zero.2 ?_
  intro i hi
  obtain ⟨-, -, htrim, -⟩ := of_isQuiet (h i hi)
  exact Bool.eq_false_iff.1 htrim

theorem filter_isNeedleWork_of_quiet {is : List Instruction} (h : ∀ i ∈ is, i.isQuiet = true) :
    is.filter Instruction.isNeedleWork = [] := by
  refine List.filter_eq_nil_iff.2 ?_
  intro i hi
  exact Bool.eq_false_iff.1 (isNeedleWork_of_isQuiet (h i hi))

theorem inForce_append_of_none {is js : List Instruction}
    (h : ∀ i ∈ js, i.isAcceleration = false) : inForce (is ++ js) = inForce is := by
  have hnone : js.filter Instruction.isAcceleration = [] := by
    refine List.filter_eq_nil_iff.2 ?_
    intro i hi
    exact Bool.eq_false_iff.1 (h i hi)
  rw [inForce, inForce, List.filter_append, hnone, List.append_nil]

namespace Context

variable (p total) in
theorem report_quiet (index : Nat) (c : Context) :
    ∀ i ∈ (report p total index c).2, i.isQuiet = true := by
  intro i hi
  obtain ⟨n, -, rfl⟩ := mem_report hi
  rfl

theorem setTension_quiet (on : Bool) (c : Context) :
    ∀ i ∈ (setTension on c).2, i.isQuiet = true := by
  rw [setTension_snd]
  split
  · exact List.forall_mem_nil _
  · exact List.forall_mem_cons.2 ⟨rfl, List.forall_mem_singleton.2 rfl⟩

theorem endRun_quiet (c : Context) : ∀ i ∈ (endRun c).2, i.isQuiet = true := by
  rw [endRun_snd]
  refine List.forall_mem_append.2 ⟨?_, setTension_quiet false c⟩
  split
  · exact List.forall_mem_singleton.2 rfl
  · exact List.forall_mem_nil _

/-! ## The count of a run -/

/-- The count that a context holds after so many stitches of a run. -/
def countAfter (n : Nat) : Nat :=
  if n < anchorStitches then n
  else if n = anchorStitches then anchorStitches + 1
  else anchorStitches + 2

theorem profileSwitch_of_slow {n : Nat} (h : n < anchorStitches) :
    profileSwitch p (n + 1) = if n = 0 then accelerate p p.zLowAcceleration else [] := by
  rw [profileSwitch, needleAcceleration, if_pos (show n + 1 ≤ anchorStitches from h)]
  have hiff : (n + 1 = 1 ∨ n + 1 = anchorStitches + 1) ↔ n = 0 := by omega
  simp only [hiff]

theorem profileSwitch_of_fast {n : Nat} (h : anchorStitches < n) : profileSwitch p (n + 1) = [] :=
  if_neg (by omega)

theorem cycle_of_count {c : Context} {n : Nat} (h : c.runCount = countAfter n) :
    (cycle p c).1.runCount = (if n < anchorStitches then n + 1 else anchorStitches + 2) ∧
      (cycle p c).2 =
        profileSwitch p (n + 1) ++ [.needleCycle (some (needleSpeed p (n + 1)))] := by
  rcases Nat.lt_trichotomy n anchorStitches with hslow | rfl | hfast
  · have hcount : c.runCount = n := h.trans (if_pos hslow)
    have hspeed : needleSpeed p (n + 1) = p.zLowSpeed := if_pos hslow
    rw [cycle, if_pos (show c.runCount ≤ anchorStitches by omega), hcount, if_pos hslow,
      profileSwitch_of_slow hslow, hspeed]
    exact ⟨rfl, rfl⟩
  · -- the trim has been counted, so the count is one ahead
    have hcount : c.runCount = anchorStitches + 1 := h
    rw [cycle, if_neg (by omega), if_pos hcount, hcount]
    exact ⟨rfl, rfl⟩
  · have hcount : c.runCount = anchorStitches + 2 :=
      h.trans ((if_neg (by omega)).trans (if_neg (by omega)))
    have hspeed : needleSpeed p (n + 1) = p.zHighSpeed := if_neg (by omega)
    rw [cycle, if_neg (by omega), if_neg (by omega), if_neg (by omega),
      profileSwitch_of_fast hfast, hspeed]
    exact ⟨hcount, rfl⟩

theorem trimAnchor_of_count {c : Context} {n : Nat}
    (h : c.runCount = if n < anchorStitches then n + 1 else anchorStitches + 2) :
    (trimAnchor c).1.runCount = countAfter (n + 1) ∧ (trimAnchor c).2 = anchorTrim (n + 1) := by
  unfold trimAnchor anchorTrim countAfter
  rcases Nat.lt_trichotomy (n + 1) anchorStitches with hlt | heq | hgt
  · have hcount : c.runCount = n + 1 := h.trans (if_pos (by omega))
    rw [if_neg (by omega), if_pos hlt, if_neg (by omega)]
    exact ⟨hcount, rfl⟩
  · have hcount : c.runCount = n + 1 := h.trans (if_pos (by omega))
    rw [if_pos (hcount.trans heq), if_neg (by omega), if_pos heq, if_pos heq]
    exact ⟨congrArg (· + 1) (hcount.trans heq), rfl⟩
  · have hcount : c.runCount = anchorStitches + 2 := h.trans (if_neg (by omega))
    rw [if_neg (by omega), if_neg (by omega), if_neg (by omega), if_neg (by omega)]
    exact ⟨hcount, rfl⟩

/-- To sew a stitch writes the work of the needle by the number of the stitch. -/
theorem sew_of_count {c : Context} {n : Nat} (h : c.runCount = countAfter n) (spot : Point) :
    (sew p spot c).1.runCount = countAfter (n + 1) ∧
      (sew p spot c).2 = (setTension true c).2 ++ .move .sewing (.at spot p.stitchSpeed) ::
        needleWork p (n + 1) := by
  have htight : (setTension true { c with last := spot }).1.runCount = countAfter n := by
    rw [setTension_fst]
    exact h
  obtain ⟨hcount, hcycle⟩ := cycle_of_count (p := p) htight
  obtain ⟨hnext, htrim⟩ := trimAnchor_of_count hcount
  unfold sew
  dsimp only
  refine ⟨hnext, ?_⟩
  rw [hcycle, htrim, setTension_snd, setTension_snd, needleWork]
  simp only [List.append_assoc, List.cons_append, List.nil_append]

/-! ## Stitches in a block -/

/-- A context in which a block can start. -/
structure Fresh (c : Context) : Prop where
  sound : c.Sound
  count : c.runCount = countAfter 0
  last : c.last = origin

theorem start_fresh : start.Fresh := ⟨start_sound, rfl, rfl⟩

variable (p total) in
/-- A stitch that follows `n` sewn ones is sewn with the next number; or it is left out, which takes
    a last stitch that it is too close to. -/
theorem step_in_block {c : Context} (hc : c.Sound) {n : Nat} (hn : c.runCount = countAfter n)
    {e : StitchEvent} (he : e.kind = .stitch) :
    ((∃ lead, (∀ i ∈ lead, i.isQuiet = true) ∧
        (step p total c e).2 = lead ++ .move .sewing
          (.at (e.position p.scalingFactor) p.stitchSpeed) :: needleWork p (n + 1)) ∧
      (step p total c e).1.runCount = countAfter (n + 1)) ∨
    ((∀ i ∈ (step p total c e).2, i.isQuiet = true) ∧
      (step p total c e).1.runCount = countAfter n ∧ c.last.isOrigin = false) := by
  have hreport := report_quiet p total e.index c
  have hfree : (freeMove p e).isQuiet = true := rfl
  have houtcome := step_outcome p total hc e
  generalize step p total c e = after at houtcome ⊢
  cases houtcome with
  | moved r h => rcases h with h | h <;> exact absurd (he.symm.trans h) (by decide)
  | trimmed r h => exact absurd (he.symm.trans h) (by decide)
  | recolored r h => exact absurd (he.symm.trans h) (by decide)
  | inserted r h hthread =>
    obtain ⟨hcount, hsew⟩ := sew_of_count (p := p) (c := { c with reported := r, threaded := true })
      hn (e.position p.scalingFactor)
    refine .inl ⟨⟨(report p total e.index c).2 ++ ([freeMove p e, .pause .threadInserted] ++
      (setTension true { c with reported := r, threaded := true }).2), ?_, ?_⟩, hcount⟩
    · refine List.forall_mem_append.2 ⟨hreport, List.forall_mem_append.2 ⟨?_, setTension_quiet _ _⟩⟩
      exact List.forall_mem_cons.2 ⟨hfree, List.forall_mem_singleton.2 rfl⟩
    · dsimp only
      rw [hsew]
      simp only [List.append_assoc]
  | sewn r h hthread =>
    obtain ⟨hcount, hsew⟩ := sew_of_count (p := p) (c := { c with reported := r })
      hn (e.position p.scalingFactor)
    refine .inl ⟨⟨(report p total e.index c).2 ++ (setTension true { c with reported := r }).2,
      List.forall_mem_append.2 ⟨hreport, setTension_quiet _ _⟩, ?_⟩, hcount⟩
    dsimp only
    rw [hsew]
    simp only [List.append_assoc]
  | rejected r h hthread hlast =>
    exact .inr ⟨List.forall_mem_append.2 ⟨hreport, List.forall_mem_singleton.2 hfree⟩, hn, hlast⟩

/-- An event that is no stitch ends the run, and asks for no trim unless it is one. -/
theorem step_outside_block {c : Context} {e : StitchEvent} (he : e.kind ≠ .stitch) :
    (step p total c e).1.Fresh ∧
      (step p total c e).2.countP Instruction.isTrim = if e.kind = .trim then 1 else 0 := by
  have hended : ((report p total e.index c).2 ++ (endRun c).2).countP Instruction.isTrim = 0 :=
    countP_isTrim_of_quiet
      (List.forall_mem_append.2 ⟨report_quiet p total e.index c, endRun_quiet c⟩)
  cases h : e.kind with
  | jump =>
    obtain ⟨r, hr⟩ := step_jump_or_finish p total (c := c) (.inl h)
    rw [hr, List.countP_append, hended]
    exact ⟨⟨sound_of_origin rfl rfl rfl, rfl, rfl⟩, rfl⟩
  | finish =>
    obtain ⟨r, hr⟩ := step_jump_or_finish p total (c := c) (.inr h)
    rw [hr, List.countP_append, hended]
    exact ⟨⟨sound_of_origin rfl rfl rfl, rfl, rfl⟩, rfl⟩
  | trim =>
    obtain ⟨r, hr⟩ := step_trim p total (c := c) h
    rw [hr, List.countP_append, hended]
    exact ⟨⟨sound_of_origin rfl rfl rfl, rfl, rfl⟩, rfl⟩
  | colorChange =>
    obtain ⟨r, hr⟩ := step_colorChange p total (c := c) h
    rw [hr, List.countP_append, hended]
    exact ⟨⟨sound_of_origin rfl rfl rfl, rfl, rfl⟩, rfl⟩
  | stitch => exact absurd h he

end Context

/-! ## Blocks -/

open Context

/-- The accelerations stay those of the last stitch up to the next needle cycle, unless that sets
    its own. -/
theorem profileOf_switch {n : Nat} {is js : List Instruction}
    (his : 1 ≤ n → ProfileOf p n is) (hjs : ∀ i ∈ js, i.isAcceleration = false) :
    ProfileOf p (n + 1) (is ++ js ++ profileSwitch p (n + 1)) := by
  intro a ha
  rw [profileSwitch]
  split
  · -- here they are set
    rw [Context.accelerate, ha, inForce, List.filter_append, List.getLast?_append]
    rfl
  · next hkept =>
    have hn : 1 ≤ n := by omega
    have hsame : needleAcceleration p (n + 1) = needleAcceleration p n := by
      unfold needleAcceleration
      have hiff : n + 1 ≤ anchorStitches ↔ n ≤ anchorStitches := by omega
      simp only [hiff]
    rw [List.append_nil, inForce_append_of_none hjs, hsame]
    exact his hn a ha

/-- A block in which `n` stitches are sewn already. -/
structure Anchored (p : Parameters) (n : Nat) (block : List Stage) : Prop where
  /-- A stitch that is left out does none of the work. -/
  leftOut : ∀ s ∈ block, s.sews = false → ∀ i ∈ s.written, i.isNeedleWork = false
  /-- The sewn stitches are numbered on. -/
  sewn : ∀ k (s : Stage), (block.filter Stage.sews)[k]? = some s → s.SewnAs p (n + k + 1)
  /-- The work of each number is done once and in order. -/
  work : (block.flatMap Stage.written).filter Instruction.isNeedleWork =
    (List.range' (n + 1) (sewnCount block)).flatMap (needleWork p)

theorem anchorTrim_no_acceleration {n : Nat} : ∀ i ∈ anchorTrim n, i.isAcceleration = false := by
  unfold anchorTrim
  split
  · exact List.forall_mem_singleton.2 rfl
  · exact List.forall_mem_nil _

theorem isNeedleWork_of_mem_needleWork {n : Nat} :
    ∀ i ∈ needleWork p n, i.isNeedleWork = true := by
  unfold needleWork profileSwitch anchorTrim
  refine List.forall_mem_append.2 ⟨?_, List.forall_mem_cons.2 ⟨rfl, ?_⟩⟩
  · split
    · intro i hi
      obtain ⟨x, y, z, rfl⟩ := mem_accelerate hi
      rfl
    · exact List.forall_mem_nil _
  · split
    · exact List.forall_mem_singleton.2 rfl
    · exact List.forall_mem_nil _

namespace Stage

theorem SewnAs.sews {s : Stage} {n : Nat} (h : s.SewnAs p n) : s.sews = true := by
  obtain ⟨lead, -, hwritten, -⟩ := h
  refine List.any_eq_true.2
    ⟨.move .sewing (.at (s.event.position p.scalingFactor) p.stitchSpeed), ?_, rfl⟩
  rw [hwritten]
  exact List.mem_append_right _ List.mem_cons_self

theorem SewnAs.filter_isNeedleWork {s : Stage} {n : Nat} (h : s.SewnAs p n) :
    s.written.filter Instruction.isNeedleWork = needleWork p n := by
  obtain ⟨lead, hlead, hwritten, -⟩ := h
  rw [hwritten, List.filter_append, filter_isNeedleWork_of_quiet hlead, List.nil_append,
    List.filter_cons_of_neg Bool.false_ne_true]
  exact List.filter_eq_self.2 isNeedleWork_of_mem_needleWork

theorem sews_of_quiet {s : Stage} (h : ∀ i ∈ s.written, i.isQuiet = true) : s.sews = false := by
  refine List.any_eq_false.2 ?_
  intro i hi
  obtain ⟨hsewing, -⟩ := of_isQuiet (h i hi)
  exact Bool.eq_false_iff.1 hsewing

end Stage

namespace Anchored

theorem nil (n : Nat) : Anchored p n [] :=
  ⟨List.forall_mem_nil _, fun _ s h => absurd h.symm (Option.some_ne_none s), rfl⟩

theorem cons_sewn {n : Nat} {s : Stage} {block : List Stage} (hs : s.SewnAs p (n + 1))
    (h : Anchored p (n + 1) block) : Anchored p n (s :: block) := by
  refine ⟨List.forall_mem_cons.2 ⟨?_, h.leftOut⟩, ?_, ?_⟩
  · intro hno
    exact Bool.noConfusion (hs.sews.symm.trans hno)
  · intro k t ht
    rw [List.filter_cons_of_pos hs.sews] at ht
    cases k with
    | zero =>
      rw [← Option.some.inj ht]
      exact hs
    | succ k =>
      have hnumber : n + (k + 1) + 1 = n + 1 + k + 1 := by omega
      rw [hnumber]
      exact h.sewn k t ht
  · rw [List.flatMap_cons, List.filter_append, hs.filter_isNeedleWork, h.work, sewnCount, sewnCount,
      List.countP_cons_of_pos hs.sews, List.range'_succ, List.flatMap_cons]

theorem cons_leftOut {n : Nat} {s : Stage} {block : List Stage}
    (hs : ∀ i ∈ s.written, i.isQuiet = true) (h : Anchored p n block) :
    Anchored p n (s :: block) := by
  have hsews : ¬s.sews = true := by
    rw [Stage.sews_of_quiet hs]
    exact Bool.false_ne_true
  refine ⟨List.forall_mem_cons.2 ⟨?_, h.leftOut⟩, ?_, ?_⟩
  · intro _ i hi
    exact isNeedleWork_of_isQuiet (hs i hi)
  · rw [List.filter_cons_of_neg hsews]
    exact h.sewn
  · rw [List.flatMap_cons, List.filter_append, filter_isNeedleWork_of_quiet hs, List.nil_append,
      h.work, sewnCount, sewnCount, List.countP_cons_of_neg hsews]

end Anchored

/-- The stages of stitches that follow `n` sewn ones. -/
theorem anchored_stages {c : Context} (hc : c.Sound) {n : Nat} (hn : c.runCount = countAfter n)
    {prior : List Instruction} (hprior : 1 ≤ n → ProfileOf p n prior) {es : List StitchEvent}
    (hes : ∀ e ∈ es, e.kind = .stitch) : Anchored p n (stages p total c prior es) := by
  -- the number goes up with every stitch that is sewn
  induction es generalizing c n prior with
  | nil => exact .nil n
  | cons e es ih =>
    obtain ⟨he, hes⟩ := List.forall_mem_cons.1 hes
    have hsound : (step p total c e).1.Sound := step_sound hc e
    rcases step_in_block p total hc hn he with ⟨⟨lead, hlead, hwritten⟩, hnext⟩ | ⟨hquiet, hnext, -⟩
    · have hnone : ∀ i ∈ lead ++ [.move .sewing (.at (e.position p.scalingFactor) p.stitchSpeed)],
          i.isAcceleration = false := by
        refine List.forall_mem_append.2 ⟨?_, List.forall_mem_singleton.2 rfl⟩
        intro i hi
        obtain ⟨-, -, -, hacceleration⟩ := of_isQuiet (hlead i hi)
        exact hacceleration
      have hswitch := profileOf_switch hprior hnone
      refine .cons_sewn ⟨lead, hlead, hwritten, hswitch⟩ (ih hsound hnext ?_ hes)
      intro _ a ha
      have hbehind : ∀ i ∈ .needleCycle (some (needleSpeed p (n + 1))) :: anchorTrim (n + 1),
          i.isAcceleration = false :=
        List.forall_mem_cons.2 ⟨rfl, anchorTrim_no_acceleration⟩
      have hall : prior ++ (step p total c e).2 = prior ++
          (lead ++ [.move .sewing (.at (e.position p.scalingFactor) p.stitchSpeed)]) ++
          profileSwitch p (n + 1) ++
          (.needleCycle (some (needleSpeed p (n + 1))) :: anchorTrim (n + 1)) := by
        rw [hwritten, needleWork]
        simp only [List.append_assoc, List.cons_append, List.nil_append]
      rw [hall, inForce_append_of_none hbehind]
      exact hswitch a ha
    · refine .cons_leftOut hquiet (ih hsound hnext ?_ hes)
      intro h a ha
      rw [inForce_append_of_none fun i hi => (of_isQuiet (hquiet i hi)).2.2.2]
      exact hprior h a ha

/-- The first stitch of a block is sewn. -/
theorem sewnCount_pos {c : Context} (hc : c.Fresh) {prior : List Instruction}
    {es : List StitchEvent} (hes : ∀ e ∈ es, e.kind = .stitch)
    (h : stages p total c prior es ≠ []) : 0 < sewnCount (stages p total c prior es) := by
  cases es with
  | nil => exact absurd rfl h
  | cons e es =>
    obtain ⟨he, -⟩ := List.forall_mem_cons.1 hes
    have hsewn : (Stage.of p total c prior e).sews = true := by
      rcases step_in_block p total hc.sound hc.count he with
        ⟨⟨lead, -, hwritten⟩, -⟩ | ⟨-, -, hlast⟩
      · exact List.any_eq_true.2
          ⟨_, hwritten ▸ List.mem_append_right _ List.mem_cons_self, rfl⟩
      · rw [hc.last, isOrigin_origin] at hlast
        exact Bool.noConfusion hlast
    exact List.countP_pos_iff.2 ⟨_, List.mem_cons_self, hsewn⟩

/-! ## Trims -/

/-- The work of a stitch asks for a trim if it is the last of the anchor. -/
theorem countP_isTrim_needleWork (n : Nat) :
    (needleWork p n).countP Instruction.isTrim = if n = anchorStitches then 1 else 0 := by
  have hswitch : (profileSwitch p n).countP Instruction.isTrim = 0 := by
    refine List.countP_eq_zero.2 ?_
    intro i hi
    unfold profileSwitch at hi
    split at hi
    · obtain ⟨x, y, z, rfl⟩ := mem_accelerate hi
      exact Bool.false_ne_true
    · exact absurd hi List.not_mem_nil
  rw [needleWork, List.countP_append, hswitch, Nat.zero_add,
    List.countP_cons_of_neg Bool.false_ne_true, anchorTrim]
  split <;> rfl

/-- The work of the stitches from a number on asks for a trim if they go past the anchor. -/
theorem countP_isTrim_flatMap_needleWork (n m : Nat) :
    ((List.range' (n + 1) m).flatMap (needleWork p)).countP Instruction.isTrim =
      if n < anchorStitches ∧ anchorStitches ≤ n + m then 1 else 0 := by
  induction m generalizing n with
  | zero => exact (if_neg (by omega)).symm
  | succ m ih =>
    rw [List.range'_succ, List.flatMap_cons, List.countP_append, countP_isTrim_needleWork, ih]
    split <;> split <;> split <;> omega

theorem Anchored.countP_isTrim {block : List Stage} (h : Anchored p 0 block) :
    (block.flatMap Stage.written).countP Instruction.isTrim =
      if anchorStitches ≤ sewnCount block then 1 else 0 := by
  have hfilter : (block.flatMap Stage.written).countP Instruction.isTrim =
      ((block.flatMap Stage.written).filter Instruction.isNeedleWork).countP
        Instruction.isTrim := by
    rw [List.countP_filter]
    refine congrArg (fun test => List.countP test _) (funext fun i => ?_)
    unfold Instruction.isNeedleWork
    cases i.isCycle <;> cases i.isTrim <;> rfl
  have hfive : 0 < anchorStitches := by decide
  rw [hfilter, h.work, countP_isTrim_flatMap_needleWork, Nat.zero_add]
  simp only [hfive, true_and]

/-! ## Whole programs -/

/-- A trim is the only instruction of a program that is written as one. -/
theorem text_eq_trim_iff {i : Instruction} (hi : i.Writable) :
    i.text = "M0 C101" ↔ i.isTrim = true := by
  have htrim : (Instruction.pause .trim).text = "M0 C101" := by decide +kernel
  constructor
  · intro h
    have hreread := reread_eq_of_text_eq hi (j := .pause .trim) trivial (h.trans htrim.symm)
    cases i with
    | pause code =>
      rw [Instruction.pause.inj hreread]
      rfl
    | _ => exact nomatch hreread
  · intro h
    cases i with
    | pause code =>
      cases code with
      | trim => exact htrim
      | _ => exact Bool.noConfusion h
    | _ => exact Bool.noConfusion h

theorem count_trim_map_text {is : List Instruction} (his : ∀ i ∈ is, i.Writable) :
    (is.map Instruction.text).count "M0 C101" = is.countP Instruction.isTrim := by
  rw [List.count, List.countP_map]
  refine List.countP_congr ?_
  intro i hi
  exact beq_iff_eq.trans (text_eq_trim_iff (his i hi))

/-- The title of a program is no trim. -/
theorem titleLine_ne_trim (name : String) : titleLine name ≠ "M0 C101" := by
  intro h
  have hchars : ';' :: ' ' :: (lowerText name).toList = "M0 C101".toList := by
    rw [← h, titleLine, String.toList_ofList]
  exact absurd (List.cons.inj hchars).1 (by decide)

/-- The header and the footer ask for no trim. -/
theorem countP_isTrim_programOf (p : Parameters) (events : List StitchEvent) :
    (programOf p ⟨none, events⟩).countP Instruction.isTrim =
      (run p events.length .start events).2.countP Instruction.isTrim := by
  obtain ⟨body, hbody, hheader⟩ := programHeader_eq p (Survey.ofEvents p.scalingFactor events)
  have hprepares : body.countP Instruction.isTrim = 0 := by
    refine List.countP_eq_zero.2 ?_
    intro i hi htrim
    cases i with
    | pause code => exact Bool.noConfusion (hbody _ hi)
    | _ => exact Bool.noConfusion htrim
  have hopening : (programHeader p (Survey.ofEvents p.scalingFactor events) none).countP
      Instruction.isTrim = 0 := by
    rw [hheader, List.countP_append, List.countP_append, hprepares]
    rfl
  rw [programOf, List.countP_append, List.countP_append, hopening, Nat.zero_add]
  rfl

/-- The lines of a program that ask for a trim are those of its stages. -/
theorem count_trim_programLines (p : Parameters) (pattern : Pattern) :
    (programLines p pattern).count "M0 C101" =
      ((programStages p pattern).flatMap Stage.written).countP Instruction.isTrim := by
  obtain ⟨name, events⟩ := pattern
  have hunnamed : (programLines p ⟨none, events⟩).count "M0 C101" =
      (run p events.length .start events).2.countP Instruction.isTrim := by
    rw [programLines, count_trim_map_text (programOf_writable p events), countP_isTrim_programOf]
  rw [programStages, flatMap_written_stages]
  cases name with
  | none => exact hunnamed
  | some name =>
    rw [programLines_named, List.count_cons_of_ne (titleLine_ne_trim name)]
    exact hunnamed

/-- Where a run starts fresh, so does each of its blocks. -/
theorem mem_stitchBlocks {c : Context} (hc : c.Fresh) {prior : List Instruction}
    {events : List StitchEvent} {block : List Stage}
    (h : block ∈ stitchBlocks (stages p total c prior events)) :
    Anchored p 0 block ∧ (block ≠ [] → 0 < sewnCount block) := by
  have hcut : ∀ c e, StitchKind.endsBlock (StitchEvent.kind e) = true →
      Context.Fresh (Context.step p total c e).1 := by
    intro c e he
    exact (step_outside_block (by simpa [StitchKind.endsBlock] using he)).1
  obtain ⟨c', prior', es, rfl, hfresh, hes⟩ := mem_splitOnP_stages Context.Fresh hcut hc h
  have hstitch : ∀ e ∈ es, e.kind = .stitch := by
    intro e he
    simpa [StitchKind.endsBlock] using hes e he
  exact ⟨anchored_stages hfresh.sound hfresh.count (fun h => absurd h (by decide)) hstitch,
    sewnCount_pos hfresh hstitch⟩

/-- Outside of blocks a trim is asked for at each trim. -/
theorem countP_isTrim_outside {c : Context} (hc : c.Sound) (prior : List Instruction)
    (events : List StitchEvent) :
    (((stages p total c prior events).filter fun s => !s.isStitch).flatMap
      Stage.written).countP Instruction.isTrim = events.countP (·.kind = .trim) := by
  have hstage : ∀ s ∈ (stages p total c prior events).filter fun s => !s.isStitch,
      s.written.countP Instruction.isTrim =
        if decide (s.event.kind = .trim) = true then 1 else 0 := by
    intro s hs
    obtain ⟨hs, hkind⟩ := List.mem_filter.1 hs
    obtain ⟨-, hstage⟩ := sound_of_mem_stages hc hs
    have hne : s.event.kind ≠ .stitch := by simpa [Stage.isStitch] using hkind
    rw [hstage]
    simp only [decide_eq_true_eq]
    exact (step_outside_block hne).2
  have hkinds : ∀ s ∈ stages p total c prior events,
      (decide (s.event.kind = .trim) && !s.isStitch) = true ↔
        decide (s.event.kind = .trim) = true := by
    intro s _
    unfold Stage.isStitch
    cases s.event.kind <;> decide
  have hevents : events.countP (·.kind = .trim) =
      (stages p total c prior events).countP (·.event.kind = .trim) := by
    have hmap : (stages p total c prior events).map Stage.event = events :=
      map_event_stages c prior events
    exact (congrArg _ hmap.symm).trans List.countP_map
  rw [countP_flatMap_of_ite hstage, List.countP_filter, List.countP_congr hkinds, hevents]

/-- A run from a fresh context asks for a trim at each trim and once in each block that completes
    its anchor. -/
theorem countP_isTrim_stages {c : Context} (hc : c.Fresh) (prior : List Instruction)
    (events : List StitchEvent) :
    ((stages p total c prior events).flatMap Stage.written).countP Instruction.isTrim =
      events.countP (·.kind = .trim) +
        (stitchBlocks (stages p total c prior events)).countP (anchorStitches ≤ sewnCount ·) := by
  rw [countP_flatMap_splitOnP Instruction.isTrim Stage.written (fun s => !s.isStitch),
    countP_isTrim_outside hc.sound]
  refine congrArg (_ + ·) (countP_flatMap_of_ite ?_)
  intro block hblock
  obtain ⟨hanchored, -⟩ := mem_stitchBlocks hc hblock
  simp only [decide_eq_true_eq]
  exact hanchored.countP_isTrim

/-- **Anchors.**  In any block of stitches of a run, one stitch at least is sewn, and those that are
    left out make the needle do nothing.  The sewn ones are sewn as the first, the second and so on,
    and their work is all that the needle does; a trim is asked for once if there are five of them,
    and never otherwise.  So the trims that a program asks for are the trims of its pattern and one
    for each block with five sewn stitches. -/
theorem anchor_over_blocks (p : Parameters) :
    (∀ total prior events, ∀ block ∈ stitchBlocks (stages p total .start prior events),
      (block ≠ [] → 0 < sewnCount block) ∧
      (∀ s ∈ block, s.sews = false → ∀ i ∈ s.written, i.isNeedleWork = false) ∧
      (∀ k (s : Stage), (block.filter Stage.sews)[k]? = some s → s.SewnAs p (k + 1)) ∧
      (block.flatMap Stage.written).filter Instruction.isNeedleWork =
        (List.range' 1 (sewnCount block)).flatMap (needleWork p) ∧
      (block.flatMap Stage.written).countP Instruction.isTrim =
        if anchorStitches ≤ sewnCount block then 1 else 0) ∧
    ∀ pattern lines, generate p pattern = .ok lines →
      lines.count "M0 C101" = pattern.events.countP (·.kind = .trim) +
        (stitchBlocks (programStages p pattern)).countP (anchorStitches ≤ sewnCount ·) := by
  constructor
  · intro total prior events block hblock
    obtain ⟨hanchored, hpos⟩ := mem_stitchBlocks start_fresh hblock
    refine ⟨hpos, hanchored.leftOut, ?_, hanchored.work, hanchored.countP_isTrim⟩
    intro k s hs
    rw [← Nat.zero_add k]
    exact hanchored.sewn k s hs
  · intro pattern lines h
    obtain ⟨-, -, rfl⟩ := of_generate h
    rw [count_trim_programLines]
    exact countP_isTrim_stages start_fresh _ pattern.events

/-- Six stitches, one of them too close to be sewn, and two more behind a trim: the first block
    completes its anchor and the second does not. -/
theorem anchor_of_six_stitches :
    let events : List StitchEvent :=
      [⟨0, 0, 0, .stitch⟩, ⟨1, 10, 0, .stitch⟩, ⟨2, 11, 0, .stitch⟩, ⟨3, 20, 0, .stitch⟩,
        ⟨4, 30, 0, .stitch⟩, ⟨5, 40, 0, .stitch⟩, ⟨6, 50, 0, .trim⟩, ⟨7, 60, 0, .stitch⟩]
    let p : Parameters := { clearance := some 1 }
    ∃ lines, generate p ⟨none, events⟩ = .ok lines ∧ lines.count "M0 C101" = 2 := by
  intro events p
  have hp : p.check = .ok () := check_of_toOption (by decide +kernel)
  have hgenerate : generate p ⟨none, events⟩ = .ok (programLines p ⟨none, events⟩) :=
    generate_eq hp (by decide)
  refine ⟨_, hgenerate, ((anchor_over_blocks p).2 _ _ hgenerate).trans ?_⟩
  decide +kernel

end
end Embroidery
