/-
  How far apart stitches are sewn.

  The clearance is a greedy filter on each block of stitches (`clearance_over_blocks`).  The first
  stitch of a block is sewn.  A later one is sewn exactly if it may follow the stitch that was sewn
  last, however many were left out between them: it is far enough from it, or that stitch lies at
  the origin, which the generator reads as no stitch at all.  A stitch that is left out is moved to
  and changes nothing else.

  The positions that a block compares are those its context carries as the last one.  A step either
  puts its own position there or leaves it (`step_clear`, `step_close`), so a block is `Sifted` from
  the position it starts with, by induction on its stitches.  That position is the origin, which is
  why the first stitch needs no case of its own, with thread or without.
-/
import Mathlib.Data.List.Chain
import Embroidery.Proofs.Program.Anchor
import Embroidery.Proofs.Program.Progress
import Embroidery.Proofs.Program.Thread

namespace Embroidery

/-- A stitch may be sewn behind one at the last position.  The origin stands for no last one. -/
def Parameters.MayFollow (p : Parameters) (last spot : Point) : Prop :=
  last.isOrigin = true ∨ p.effectiveClearance ≤ distance last spot

namespace Stage

/-- The position of the event on the machine. -/
def spot (p : Parameters) (s : Stage) : Point := s.event.position p.scalingFactor

/-- The event is sewn by one sewing move to its position and one needle cycle. -/
structure SewnOnce (p : Parameters) (s : Stage) : Prop where
  move : s.written.filter Instruction.isSewing = [.move .sewing (.at (s.spot p) p.stitchSpeed)]
  cycle : s.written.countP Instruction.isCycle = 1

/-- The event is only moved to, behind a report at most, and no more than the report is noted. -/
structure LeftOut (p : Parameters) (s : Stage) : Prop where
  move : ∃ lead, (lead = [] ∨ ∃ percent, lead = [.progress percent]) ∧
    s.written = lead ++ [.move .free (.at (s.spot p) p.jumpSpeed)]
  kept : s.next = { s.context with reported := s.next.reported }

end Stage

/-- The last of some stages that is sewn. -/
def lastSewn (ss : List Stage) : Option Stage := (ss.filter Stage.sews).getLast?

section
variable {p : Parameters} {total : Nat}

/-! ## Steps -/

namespace Context

theorem isClear_iff {spot : Point} {c : Context} :
    isClear p spot c = true ↔ p.MayFollow c.last spot := by
  rw [isClear, Bool.or_eq_true, decide_eq_true_iff]
  rfl

variable (p total) in
/-- A stitch that may follow the last one is sewn, and is then the last one. -/
theorem step_clear {c : Context} (hc : c.Sound) {e : StitchEvent} (he : e.kind = .stitch)
    (hclear : isClear p (e.position p.scalingFactor) c = true) :
    (step p total c e).2.filter Instruction.isSewing =
        [.move .sewing (.at (e.position p.scalingFactor) p.stitchSpeed)] ∧
      (step p total c e).2.countP Instruction.isCycle = 1 ∧
      (step p total c e).1.last = e.position p.scalingFactor := by
  have hreport : AllIdle (report p total e.index c).2 := report_idle _ _
  cases hthread : c.threaded with
  | false =>
    obtain ⟨r, hr⟩ := step_stitch_inserted p total hc he hthread
    obtain ⟨n, hn⟩ :=
      sew_fst (p := p) (e.position p.scalingFactor) { c with reported := r, threaded := true }
    have hmove : [freeMove p e, .pause .threadInserted].filter Instruction.isSewing = [] := rfl
    have hcycle : [freeMove p e, .pause .threadInserted].countP Instruction.isCycle = 0 := rfl
    rw [hr, List.filter_append, List.filter_append, List.countP_append, List.countP_append,
      hreport.filter_isSewing, hreport.countP_isCycle, hmove, hcycle, filter_isSewing_sew,
      countP_isCycle_sew, hn]
    exact ⟨rfl, rfl, rfl⟩
  | true =>
    obtain ⟨r, hr⟩ := step_stitch_sewn p total he hthread hclear
    obtain ⟨n, hn⟩ := sew_fst (p := p) (e.position p.scalingFactor) { c with reported := r }
    rw [hr, List.filter_append, List.countP_append, hreport.filter_isSewing,
      hreport.countP_isCycle, filter_isSewing_sew, countP_isCycle_sew, hn]
    exact ⟨rfl, rfl, rfl⟩

variable (p total) in
/-- A stitch that may not follow the last one is only moved to. -/
theorem step_close {c : Context} (hc : c.Sound) {e : StitchEvent} (he : e.kind = .stitch)
    (hclear : isClear p (e.position p.scalingFactor) c = false) :
    ∃ r, step p total c e =
      ({ c with reported := r }, (report p total e.index c).2 ++ [freeMove p e]) := by
  refine step_stitch_rejected p total he ?_ hclear
  -- without thread there is no last stitch to be too close to
  cases hthread : c.threaded with
  | true => rfl
  | false =>
    obtain ⟨hlast, -⟩ := hc.slack hthread
    rw [isClear, hlast, isOrigin_origin, Bool.true_or] at hclear
    exact hclear.symm

end Context

/-! ## Blocks -/

open Context

/-- The stages of stitches that are sifted one after the other, from a last position on. -/
inductive Sifted (p : Parameters) : Point → List Stage → Prop
  | nil (last : Point) : Sifted p last []
  | sewn {last : Point} {s : Stage} {rest : List Stage} (hfollow : p.MayFollow last (s.spot p))
      (hs : s.SewnOnce p) (hrest : Sifted p (s.spot p) rest) : Sifted p last (s :: rest)
  | leftOut {last : Point} {s : Stage} {rest : List Stage} (hfollow : ¬p.MayFollow last (s.spot p))
      (hs : s.LeftOut p) (hrest : Sifted p last rest) : Sifted p last (s :: rest)

theorem Stage.SewnOnce.sews {s : Stage} (hs : s.SewnOnce p) : s.sews = true := by
  have hmem : .move .sewing (.at (s.spot p) p.stitchSpeed) ∈
      s.written.filter Instruction.isSewing := by
    rw [hs.move]
    exact List.mem_singleton_self _
  obtain ⟨hwritten, hsewing⟩ := List.mem_filter.1 hmem
  exact List.any_eq_true.2 ⟨_, hwritten, hsewing⟩

theorem Stage.LeftOut.sews {s : Stage} (hs : s.LeftOut p) : s.sews = false := by
  obtain ⟨lead, hlead, hwritten⟩ := hs.move
  rw [Stage.sews, hwritten]
  rcases hlead with rfl | ⟨percent, rfl⟩ <;> rfl

/-- The stitches of a run that follow one another are sifted from the last position of the context
    on. -/
theorem sifted_stages {c : Context} (hc : c.Sound) (prior : List Instruction)
    {es : List StitchEvent} (hes : ∀ e ∈ es, e.kind = .stitch) :
    Sifted p c.last (stages p total c prior es) := by
  induction es generalizing c prior with
  | nil => exact .nil _
  | cons e es ih =>
    obtain ⟨he, hes⟩ := List.forall_mem_cons.1 hes
    have hsound : (step p total c e).1.Sound := step_sound hc e
    have hrest := ih hsound (prior ++ (step p total c e).2) hes
    cases hclear : isClear p (e.position p.scalingFactor) c with
    | true =>
      obtain ⟨hmove, hcycle, hlast⟩ := step_clear p total hc he hclear
      rw [hlast] at hrest
      exact .sewn (isClear_iff.1 hclear) ⟨hmove, hcycle⟩ hrest
    | false =>
      obtain ⟨r, hr⟩ := step_close p total hc he hclear
      have hlast : (step p total c e).1.last = c.last := by rw [hr]
      rw [hlast] at hrest
      have hs : (Stage.of p total c prior e).LeftOut p := by
        constructor
        · refine ⟨(report p total e.index c).2, ?_, congrArg Prod.snd hr⟩
          rcases report_cases p total e.index c with h | ⟨h, -⟩
          · exact .inl (congrArg Prod.snd h)
          · exact .inr ⟨_, congrArg Prod.snd h⟩
        · show (step p total c e).1 = { c with reported := (step p total c e).1.reported }
          rw [hr]
      refine .leftOut ?_ hs hrest
      intro hfollow
      exact Bool.noConfusion (hclear.symm.trans (isClear_iff.2 hfollow))

theorem lastSewn_cons (s : Stage) (ss : List Stage) :
    lastSewn (s :: ss) = (lastSewn ss).or (if s.sews = true then some s else none) := by
  unfold lastSewn
  cases hsews : s.sews with
  | true =>
    rw [List.filter_cons_of_pos hsews, List.getLast?_cons, if_pos rfl]
    cases (ss.filter Stage.sews).getLast? <;> rfl
  | false =>
    rw [List.filter_cons_of_neg (Bool.eq_false_iff.1 hsews), if_neg Bool.false_ne_true,
      Option.or_none]

namespace Sifted

theorem forall_mem {last : Point} {ss : List Stage} (h : Sifted p last ss) :
    ∀ s ∈ ss, (s.sews = true → s.SewnOnce p) ∧ (s.sews = false → s.LeftOut p) := by
  induction h with
  | nil last => exact List.forall_mem_nil _
  | sewn hfollow hs hrest ih =>
    refine List.forall_mem_cons.2 ⟨⟨fun _ => hs, ?_⟩, ih⟩
    intro hno
    exact Bool.noConfusion (hs.sews.symm.trans hno)
  | leftOut hfollow hs hrest ih =>
    refine List.forall_mem_cons.2 ⟨⟨?_, fun _ => hs⟩, ih⟩
    intro hyes
    exact Bool.noConfusion (hs.sews.symm.trans hyes)

theorem head_iff {last : Point} {s : Stage} {ss : List Stage} (h : Sifted p last (s :: ss)) :
    s.sews = true ↔ p.MayFollow last (s.spot p) := by
  cases h with
  | sewn hfollow hs hrest => exact iff_of_true hs.sews hfollow
  | leftOut hfollow hs hrest => exact iff_of_false (Bool.eq_false_iff.1 hs.sews) hfollow

/-- A stage is sewn exactly if it may follow the one that was sewn last. -/
theorem sews_iff {last : Point} {before : List Stage} {s : Stage} {after : List Stage}
    (h : Sifted p last (before ++ s :: after)) :
    s.sews = true ↔ p.MayFollow ((lastSewn before).elim last (Stage.spot p)) (s.spot p) := by
  -- what was sewn last moves along with the stages that have been passed
  induction before generalizing last with
  | nil => exact h.head_iff
  | cons t before ih =>
    rw [List.cons_append] at h
    rw [lastSewn_cons]
    cases h with
    | sewn hfollow hs hrest =>
      rw [if_pos hs.sews, ih hrest]
      cases lastSewn before <;> exact Iff.rfl
    | leftOut hfollow hs hrest =>
      rw [if_neg (Bool.eq_false_iff.1 hs.sews), Option.or_none]
      exact ih hrest

/-- Each position that is sewn may follow the one before it. -/
theorem isChain {last : Point} {ss : List Stage} (h : Sifted p last ss) :
    (last :: (ss.filter Stage.sews).map (Stage.spot p)).IsChain p.MayFollow := by
  induction h with
  | nil last => exact List.isChain_singleton last
  | sewn hfollow hs hrest ih =>
    rw [List.filter_cons_of_pos hs.sews, List.map_cons, List.isChain_cons_cons]
    exact ⟨hfollow, ih⟩
  | leftOut hfollow hs hrest ih =>
    rw [List.filter_cons_of_neg (Bool.eq_false_iff.1 hs.sews)]
    exact ih

end Sifted

/-- Each block of a run is sifted from the origin on. -/
theorem sifted_of_mem_stitchBlocks {c : Context} (hc : c.Fresh) {prior : List Instruction}
    {events : List StitchEvent} {block : List Stage}
    (h : block ∈ stitchBlocks (stages p total c prior events)) : Sifted p origin block := by
  have hcut : ∀ c e, StitchKind.endsBlock (StitchEvent.kind e) = true →
      Context.Fresh (Context.step p total c e).1 := by
    intro c e he
    exact (step_outside_block (by simpa [StitchKind.endsBlock] using he)).1
  obtain ⟨c', prior', es, rfl, hfresh, hes⟩ := mem_splitOnP_stages Context.Fresh hcut hc h
  rw [← hfresh.last]
  refine sifted_stages hfresh.sound prior' ?_
  intro e he
  simpa [StitchKind.endsBlock] using hes e he

theorem mayFollow_origin (spot : Point) : p.MayFollow origin spot := .inl isOrigin_origin

/-- **Clearance.**  In any block of stitches of a run, the first stitch is sewn, and a later one is
    sewn exactly if the one that was sewn last lies at the origin or is at least as far away as the
    clearance.  A sewn stitch takes one sewing move and one needle cycle.  One that is left out is
    moved to behind a report at most, and the context keeps all but the report.  So of two stitches
    that are sewn one after the other, the first lies at the origin or the second keeps the
    clearance. -/
theorem clearance_over_blocks (p : Parameters) (total : Nat) (prior : List Instruction)
    (events : List StitchEvent) :
    ∀ block ∈ stitchBlocks (stages p total .start prior events),
      (∀ first rest, block = first :: rest → first.sews = true) ∧
      (∀ before s after, block = before ++ s :: after → before ≠ [] →
        ∃ t, lastSewn before = some t ∧ (s.sews = true ↔
          (t.spot p).isOrigin = true ∨ p.effectiveClearance ≤ distance (t.spot p) (s.spot p))) ∧
      (∀ s ∈ block, (s.sews = true → s.SewnOnce p) ∧ (s.sews = false → s.LeftOut p)) ∧
      ((block.filter Stage.sews).map (Stage.spot p)).IsChain fun last next =>
        last.isOrigin = true ∨ p.effectiveClearance ≤ distance last next := by
  intro block hblock
  have hsifted : Sifted p origin block := sifted_of_mem_stitchBlocks start_fresh hblock
  have hfirst : ∀ first rest, block = first :: rest → first.sews = true := by
    rintro first rest rfl
    exact hsifted.head_iff.2 (mayFollow_origin _)
  refine ⟨hfirst, ?_, hsifted.forall_mem, hsifted.isChain.tail⟩
  rintro before s after rfl hbefore
  -- something was sewn before, if only the first stitch
  have hsome : ∃ t, lastSewn before = some t := by
    cases before with
    | nil => exact absurd rfl hbefore
    | cons first before =>
      rw [lastSewn_cons, if_pos (hfirst first _ (List.cons_append ..))]
      cases lastSewn before with
      | none => exact ⟨first, rfl⟩
      | some t => exact ⟨t, rfl⟩
  obtain ⟨t, ht⟩ := hsome
  refine ⟨t, ht, hsifted.sews_iff.trans ?_⟩
  rw [ht]
  exact Iff.rfl

/-- Three stitches in a row from the origin on.  The one at the origin keeps none away, and the last
    one is too close to the second. -/
theorem clearance_over_three_stitches :
    let p : Parameters := { clearance := some 1 }
    let block := stages p 3 .start []
      [⟨0, 0, 0, .stitch⟩, ⟨1, 1, 0, .stitch⟩, ⟨2, 2, 0, .stitch⟩]
    block ∈ stitchBlocks block ∧ block.map Stage.sews = [true, true, false] ∧
      ∀ s ∈ block, s.sews = false → s.LeftOut p := by
  intro p block
  have hblock : block ∈ stitchBlocks block := List.mem_singleton.2 rfl
  obtain ⟨-, -, hstages, -⟩ := clearance_over_blocks p 3 []
    [⟨0, 0, 0, .stitch⟩, ⟨1, 1, 0, .stitch⟩, ⟨2, 2, 0, .stitch⟩] block hblock
  exact ⟨hblock, by decide +kernel, fun s hs => (hstages s hs).2⟩

end
end Embroidery
