/-
  When no stitch is left out.

  Without a clearance a stitch is sewn as soon as its distance to the last one is at least zero,
  which is asked although no distance is negative.  The question is not idle: positions may be
  infinite, and between two points that are infinitely far out on the same side there is no distance
  at all.  So every stitch of a run is sewn exactly if no two neighbouring stitches lie like that
  (`all_sewn_iff`).

  The last position of a context is that of the event before, or the origin if this was no stitch,
  as long as every stitch so far is sewn.  The induction on the events carries the event before
  along and ends at the first stitch that is left out.
-/
import Embroidery.Proofs.Number.Distance
import Embroidery.Proofs.Program.Clearance
import Embroidery.Proofs.Program.Extent

namespace Embroidery

/-- Both points are infinitely far out on the same side. -/
def Point.SharesInfinity (a b : Point) : Prop :=
  (a.x.isFinite = false ∧ a.x = b.x) ∨ (a.y.isFinite = false ∧ a.y = b.y)

instance (a b : Point) : Decidable (a.SharesInfinity b) := inferInstanceAs (Decidable (_ ∨ _))

/-- The events are not two stitches that are infinitely far out on the same side of the machine. -/
def StitchEvent.Apart (factor : Binary64) (e e' : StitchEvent) : Prop :=
  e.kind = .stitch → e'.kind = .stitch → ¬(e.position factor).SharesInfinity (e'.position factor)

instance (factor : Binary64) (e e' : StitchEvent) : Decidable (e.Apart factor e') :=
  inferInstanceAs (Decidable (_ → _ → ¬_))

section
variable {p : Parameters} {total : Nat}

theorem Binary64.isFinite_of_eq_zero {v : Binary64} (h : v.eq 0 = true) : v.isFinite = true := by
  rw [ofNat_zero] at h
  cases v with
  | finite m u hu => rfl
  | _ => exact Bool.noConfusion h

/-- Without a clearance, a stitch may follow the last one unless both are infinitely far out on the
    same side. -/
theorem mayFollow_iff (hclearance : p.clearance = none) {last spot : Point} (hlast : last.IsNumber)
    (hspot : spot.IsNumber) : p.MayFollow last spot ↔ ¬last.SharesInfinity spot := by
  have hdistance : p.effectiveClearance ≤ distance last spot ↔ ¬last.SharesInfinity spot := by
    rw [Parameters.effectiveClearance, hclearance]
    refine (zero_le_distance_iff last spot).trans ?_
    rw [Point.SharesInfinity, not_or, ← Binary64.isNaN_sub_iff hlast.1 hspot.1,
      ← Binary64.isNaN_sub_iff hlast.2 hspot.2, Bool.not_eq_true, Bool.not_eq_true]
  constructor
  · rintro (horigin | hfar)
    · -- the origin is not infinitely far out
      obtain ⟨hx, hy⟩ := Bool.and_eq_true_iff.1 horigin
      rintro (⟨h, -⟩ | ⟨h, -⟩)
      · exact Bool.noConfusion (h.symm.trans (Binary64.isFinite_of_eq_zero hx))
      · exact Bool.noConfusion (h.symm.trans (Binary64.isFinite_of_eq_zero hy))
    · exact hdistance.1 hfar
  · intro h
    exact .inr (hdistance.2 h)

open Context

/-- The last position of a context behind an event that was not left out. -/
def Context.Behind (p : Parameters) (previous : StitchEvent) (c : Context) : Prop :=
  c.last = if previous.kind = .stitch then previous.position p.scalingFactor else origin

/-- Without a clearance, a stitch is sewn if it is apart from the event before. -/
theorem isClear_iff_apart (hclearance : p.clearance = none) {c : Context} {previous e : StitchEvent}
    (hbehind : c.Behind p previous) (hprevious : (previous.position p.scalingFactor).IsNumber)
    (he : (e.position p.scalingFactor).IsNumber) (hstitch : e.kind = .stitch) :
    isClear p (e.position p.scalingFactor) c = true ↔ previous.Apart p.scalingFactor e := by
  rw [isClear_iff, hbehind]
  by_cases h : previous.kind = .stitch
  · rw [if_pos h, mayFollow_iff hclearance hprevious he]
    exact ⟨fun hapart _ _ => hapart, fun hapart => hapart h hstitch⟩
  · rw [if_neg h]
    exact iff_of_true (mayFollow_origin _) fun hkind => absurd hkind h

/-- The run lemma: every stitch of a run is sewn exactly if neighbouring stitches are apart. -/
theorem all_sewn_iff (hclearance : p.clearance = none) {c : Context} (hc : c.Sound)
    {previous : StitchEvent} (hbehind : c.Behind p previous) {events : List StitchEvent}
    (hnumbers : ∀ e ∈ previous :: events, (e.position p.scalingFactor).IsNumber)
    (prior : List Instruction) :
    (∀ s ∈ stages p total c prior events, s.isStitch = true → s.sews = true) ↔
      (previous :: events).IsChain (StitchEvent.Apart p.scalingFactor) := by
  induction events generalizing c previous prior with
  | nil => exact iff_of_true (List.forall_mem_nil _) (List.isChain_singleton previous)
  | cons e events ih =>
    obtain ⟨hprevious, hrest⟩ := List.forall_mem_cons.1 hnumbers
    obtain ⟨he, -⟩ := List.forall_mem_cons.1 hrest
    have hsound : (step p total c e).1.Sound := step_sound hc e
    rw [stages, List.forall_mem_cons, List.isChain_cons_cons]
    by_cases hstitch : e.kind = .stitch
    · have hclear := isClear_iff_apart hclearance hbehind hprevious he hstitch
      by_cases hapart : previous.Apart p.scalingFactor e
      · obtain ⟨hmove, hcycle, hlast⟩ := step_clear p total hc hstitch (hclear.2 hapart)
        have hs : (Stage.of p total c prior e).SewnOnce p := ⟨hmove, hcycle⟩
        refine and_congr (iff_of_true (fun _ => hs.sews) hapart) (ih hsound ?_ hrest _)
        rw [Context.Behind, if_pos hstitch]
        exact hlast
      · -- here is the first stitch that is left out
        refine iff_of_false ?_ (fun h => hapart h.1)
        rintro ⟨hfirst, -⟩
        have hsifted : Sifted p c.last (stages p total c prior [e]) :=
          sifted_stages hc prior (List.forall_mem_singleton.2 hstitch)
        have hfollow := hsifted.head_iff.1 (hfirst (decide_eq_true hstitch))
        exact hapart (hclear.1 (isClear_iff.2 hfollow))
    · have hapart : previous.Apart p.scalingFactor e := fun _ hkind => absurd hkind hstitch
      have hother : (Stage.of p total c prior e).isStitch = true →
          (Stage.of p total c prior e).sews = true := fun h => absurd (of_decide_eq_true h) hstitch
      refine and_congr (iff_of_true hother hapart) (ih hsound ?_ hrest _)
      rw [Context.Behind, if_neg hstitch]
      exact (step_outside_block hstitch).1.last

/-- Every stitch of a sound pattern is sewn exactly if neighbouring stitches are apart. -/
theorem programStages_all_sewn_iff {pattern : Pattern} (hpattern : pattern.check = .ok pattern)
    (hp : p.check = .ok ()) (hclearance : p.clearance = none) :
    (∀ s ∈ programStages p pattern, s.isStitch = true → s.sews = true) ↔
      pattern.events.IsChain (StitchEvent.Apart p.scalingFactor) := by
  have hfactor := (Parameters.of_check hp).1
  have hfinite := isFinite_of_checkEvents (check_eq_ok_iff.1 hpattern)
  -- an event that is no stitch stands for what comes before the first
  obtain ⟨first, hfirst, hkind⟩ : ∃ first : StitchEvent, first.isFinite = true ∧
      first.kind ≠ .stitch := ⟨⟨0, 0, 0, .jump⟩, by decide +kernel, by decide⟩
  have hbehind : Context.start.Behind p first := by
    rw [Context.Behind, if_neg hkind]
    rfl
  have hnumbers : ∀ e ∈ first :: pattern.events, (e.position p.scalingFactor).IsNumber := by
    refine List.forall_mem_cons.2 ⟨isNumber_position hfactor hfirst, ?_⟩
    intro e he
    exact isNumber_position hfactor (hfinite e he)
  refine (all_sewn_iff hclearance start_sound hbehind hnumbers _).trans ?_
  cases pattern.events with
  | nil => exact iff_of_true (List.isChain_singleton first) List.isChain_nil
  | cons e events =>
    rw [List.isChain_cons_cons]
    exact and_iff_right fun h => absurd h hkind

/-! ## Ordinary coordinates -/

theorem Binary64.isFinite_of_mul_hundred {a : Binary64} (h : (a * 100).isFinite = true) :
    a.isFinite = true := by
  cases a with
  | nan => exact Bool.noConfusion h
  | infinite m =>
    have hne : 100 * unitsInOne ≠ 0 := Nat.ne_of_gt (Nat.mul_pos (by decide) unitsInOne_pos)
    have hproduct : ∀ hv, Binary64.infinite m * .finite false (100 * unitsInOne) hv =
        .infinite (m != false) := fun _ => if_neg hne
    rw [ofNat_hundred, hproduct] at h
    exact Bool.noConfusion h
  | finite m u hu => rfl

/-- With a factor of at least one, events up to 10^300 are apart. -/
theorem isChain_apart_of_near (hfactor : 1 ≤ p.scalingFactor) {events : List StitchEvent}
    (hnear : ∀ e ∈ events, e.IsNear) : events.IsChain (StitchEvent.Apart p.scalingFactor) := by
  refine List.isChain_iff_forall_rel_of_append_cons_cons.2 ?_
  rintro e e' before after rfl
  obtain ⟨⟨hlowX, hhighX⟩, hlowY, hhighY⟩ :=
    hnear e (List.mem_append_right _ List.mem_cons_self)
  have hx := Binary64.isFinite_of_mul_hundred (isFinite_toMachine_mul hfactor hlowX hhighX)
  have hy := Binary64.isFinite_of_mul_hundred (isFinite_toMachine_mul hfactor hlowY hhighY)
  rintro - - (⟨h, -⟩ | ⟨h, -⟩)
  · exact Bool.noConfusion (h.symm.trans hx)
  · exact Bool.noConfusion (h.symm.trans hy)

end
end Embroidery
