/-
  A program stays inside the box of its pattern.

  The box is grown event by event and knows nothing of the moves; the moves are written event by
  event and know nothing of the box.  Both use the positions of the events in machine units: the box
  encloses exactly these (`encloses_ofPoints`), and every move written for an event leads to its
  position.  The only moves besides are those of the header: the corners of the box, where they are
  to be visited, and then the origin (`filter_isMove_programOf`).

  Positions of a sound pattern are numbers, if not always finite ones, and among numbers the order
  is linear.  That is what the growing of the box needs.
-/
import Embroidery.Proofs.Number.Order
import Embroidery.Proofs.Program.Targets

namespace Embroidery

/-! ## Boxes and the points in them -/

/-- Both coordinates are numbers. -/
def Point.IsNumber (q : Point) : Prop := q.x.isNaN = false ∧ q.y.isNaN = false

/-- The point lies in the box, sides included. -/
structure Bounds.Contains (b : Bounds) (q : Point) : Prop where
  left : b.minX ≤ q.x
  right : q.x ≤ b.maxX
  lower : b.minY ≤ q.y
  upper : q.y ≤ b.maxY

/-- The points lie in the box, and each side has one of them on it. -/
structure Bounds.Encloses (b : Bounds) (points : List Point) : Prop where
  contains : ∀ q ∈ points, b.Contains q
  left : ∃ q ∈ points, q.x = b.minX
  right : ∃ q ∈ points, q.x = b.maxX
  lower : ∃ q ∈ points, q.y = b.minY
  upper : ∃ q ∈ points, q.y = b.maxY

/-- The points that a program visits first: the corners of the box from the lower left one on,
    clockwise, if there is a box and if they are to be visited. -/
def cornerTour (p : Parameters) : Option Bounds → List Point
  | some b =>
    if p.visitCorners then
      [⟨b.minX, b.minY⟩, ⟨b.minX, b.maxY⟩, ⟨b.maxX, b.maxY⟩, ⟨b.maxX, b.minY⟩]
    else []
  | none => []

/-- The instruction is a move. -/
def Instruction.isMove : Instruction → Bool
  | .move _ _ => true
  | _ => false

/-! ## Growing a box -/

namespace Bounds

theorem encloses_ofPoint {q : Point} (hq : q.IsNumber) : (ofPoint q).Encloses [q] := by
  have hx := Binary64.le_refl hq.1
  have hy := Binary64.le_refl hq.2
  have hself : q ∈ [q] := List.mem_singleton_self q
  exact ⟨List.forall_mem_singleton.2 ⟨hx, hx, hy, hy⟩, ⟨q, hself, rfl⟩, ⟨q, hself, rfl⟩,
    ⟨q, hself, rfl⟩, ⟨q, hself, rfl⟩⟩

/-- The edges of a box with a point in it are numbers. -/
theorem Contains.isNaN {b : Bounds} {q : Point} (h : b.Contains q) :
    (b.minX.isNaN = false ∧ b.maxX.isNaN = false) ∧ b.minY.isNaN = false ∧ b.maxY.isNaN = false :=
  ⟨⟨(Binary64.isNaN_of_le h.left).1, (Binary64.isNaN_of_le h.right).2⟩,
    (Binary64.isNaN_of_le h.lower).1, (Binary64.isNaN_of_le h.upper).2⟩

/-- The step lemma: a box that is grown encloses the new point with the old ones. -/
theorem Encloses.grow {b : Bounds} {points : List Point} (hb : b.Encloses points) {q : Point}
    (hq : q.IsNumber) : (b.grow q).Encloses (points ++ [q]) := by
  obtain ⟨seen, hseen, -⟩ := hb.left
  obtain ⟨⟨hminX, hmaxX⟩, hminY, hmaxY⟩ := (hb.contains seen hseen).isNaN
  have hleft := Binary64.least_le hminX hq.1
  have hright := Binary64.le_greatest hmaxX hq.1
  have hlower := Binary64.least_le hminY hq.2
  have hupper := Binary64.le_greatest hmaxY hq.2
  -- an edge is the old one, which has its point, or a coordinate of the new point
  have hedge : ∀ {f : Point → Binary64} {old new : Binary64}, (∃ r ∈ points, f r = old) →
      (new = old ∨ new = f q) → ∃ r ∈ points ++ [q], f r = new := by
    rintro f old new ⟨r, hr, hold⟩ (hnew | hnew)
    · exact ⟨r, List.mem_append_left _ hr, hold.trans hnew.symm⟩
    · exact ⟨q, List.mem_append_right _ (List.mem_singleton_self q), hnew.symm⟩
  refine ⟨?_, hedge hb.left (b.minX.least_cases q.x), hedge hb.right (b.maxX.greatest_cases q.x),
    hedge hb.lower (b.minY.least_cases q.y), hedge hb.upper (b.maxY.greatest_cases q.y)⟩
  intro r hr
  rcases List.mem_append.1 hr with hr | hr
  · obtain ⟨hl, hr, hd, hu⟩ := hb.contains r hr
    exact ⟨Binary64.le_trans hleft.1 hl, Binary64.le_trans hr hright.1,
      Binary64.le_trans hlower.1 hd, Binary64.le_trans hu hupper.1⟩
  · rw [List.mem_singleton.1 hr]
    exact ⟨hleft.2, hright.2, hlower.2, hupper.2⟩

/-- The run lemma: the box of points encloses them. -/
theorem encloses_ofPoints {points : List Point} (hpoints : ∀ q ∈ points, q.IsNumber) :
    ∀ b ∈ ofPoints points, b.Encloses points := by
  -- the box so far encloses what was seen, and it is missing only if nothing was
  have hfold : ∀ (seen : List Point) (box : Option Bounds), (box = none → seen = []) →
      (∀ b ∈ box, b.Encloses seen) →
      ∀ b ∈ points.foldl (fun b q => some (extend b q)) box, b.Encloses (seen ++ points) := by
    induction points with
    | nil =>
      intro seen box _ hbox
      rw [List.append_nil]
      exact hbox
    | cons q points ih =>
      intro seen box hnone hbox
      obtain ⟨hq, hrest⟩ := List.forall_mem_cons.1 hpoints
      have hnext : (extend box q).Encloses (seen ++ [q]) := by
        cases box with
        | none =>
          rw [hnone rfl]
          exact encloses_ofPoint hq
        | some box => exact (hbox box rfl).grow hq
      intro b hb
      have hgrown := ih hrest (seen ++ [q]) (some (extend box q)) (fun h => nomatch h)
        (fun b hb => Option.some.inj hb ▸ hnext) b hb
      rw [List.append_assoc] at hgrown
      exact hgrown
  exact hfold [] none (fun _ => rfl) (fun b hb => nomatch hb)

/-- Only without points there is no box. -/
theorem ofPoints_eq_none_iff {points : List Point} : ofPoints points = none ↔ points = [] := by
  have hsome : ∀ (points : List Point) (b : Bounds),
      points.foldl (fun b q => some (extend b q)) (some b) ≠ none := by
    intro points
    induction points with
    | nil => exact fun b => Option.some_ne_none b
    | cons q points ih => exact fun b => ih (extend (some b) q)
  cases points with
  | nil => exact ⟨fun _ => rfl, fun _ => rfl⟩
  | cons q points =>
    exact ⟨fun h => absurd h (hsome points (extend none q)), fun h => nomatch h⟩

end Bounds

section
variable {p : Parameters} {pattern : Pattern}

/-! ## Moves of a program -/

theorem filter_isMove_visitAll (spots : List Point) :
    (visitAll p spots).filter Instruction.isMove =
      spots.map fun spot => .move .free (.at spot p.jumpSpeed) := by
  induction spots with
  | nil => rfl
  | cons spot rest ih =>
    cases rest with
    | nil => rfl
    | cons next rest =>
      rw [visitAll, List.filter_append, ih]
      · rfl
      · exact fun h => nomatch h

/-- The header in its parts, the corners in the order in which they are visited. -/
theorem programHeader_tour (survey : Survey) (name : Option String) :
    programHeader p survey name = programTitle name ++ [.motors true, .progress 0]
      ++ Context.accelerate p p.zLowAcceleration ++ [.dwell settleMillis]
      ++ visitAll p (cornerTour p survey.bounds) ++ visit p origin settleMillis
      ++ [.pause (.colorStart 1)] := by
  unfold programHeader cornerTour
  cases name with
  | none =>
    cases survey.bounds with
    | none => rfl
    | some b => cases p.visitCorners <;> rfl
  | some name =>
    cases survey.bounds with
    | none => rfl
    | some b => cases p.visitCorners <;> rfl

/-- The header visits the corners of the box, if it is to, and then the origin. -/
theorem filter_isMove_programHeader (survey : Survey) (name : Option String) :
    (programHeader p survey name).filter Instruction.isMove =
      (cornerTour p survey.bounds ++ [origin]).map fun spot =>
        .move .free (.at spot p.jumpSpeed) := by
  have htitle : (programTitle name).filter Instruction.isMove = [] := by
    cases name <;> rfl
  have haccelerate :
      (Context.accelerate p p.zLowAcceleration).filter Instruction.isMove = [] := by
    refine List.filter_eq_nil_iff.2 fun i hi => ?_
    obtain ⟨x, y, z, rfl⟩ := Context.mem_accelerate hi
    exact Bool.false_ne_true
  rw [programHeader_tour]
  simp only [List.filter_append, htitle, haccelerate, filter_isMove_visitAll, List.map_append]
  exact List.append_nil _

/-- The moves of a program are those of its header and those written for its events. -/
theorem filter_isMove_programOf :
    (programOf p pattern).filter Instruction.isMove =
      ((cornerTour p (Survey.ofEvents p.scalingFactor pattern.events).bounds ++ [origin]).map
          fun spot => .move .free (.at spot p.jumpSpeed)) ++
        ((programStages p pattern).flatMap Stage.written).filter Instruction.isMove := by
  rw [programOf_eq, List.filter_append, List.filter_append, filter_isMove_programHeader]
  exact List.append_nil _

/-! ## Positions of a sound pattern -/

/-- The coordinates of a sound pattern are finite. -/
theorem isFinite_of_checkEvents {previous : Option Nat} {events : List StitchEvent}
    (h : checkEvents previous events = none) : ∀ e ∈ events, e.isFinite = true := by
  induction events generalizing previous with
  | nil => exact List.forall_mem_nil _
  | cons e rest ih =>
    unfold checkEvents at h
    split at h
    · exact nomatch h
    · next hfinite =>
      have hrest : ∃ previous', checkEvents previous' rest = none := by
        cases previous with
        | none => exact ⟨_, h⟩
        | some q =>
          dsimp only at h
          split at h
          · exact nomatch h
          · exact ⟨_, h⟩
      obtain ⟨previous', hrest⟩ := hrest
      refine List.forall_mem_cons.2 ⟨?_, ih hrest⟩
      rw [Bool.not_eq_true, Bool.not_eq_false'] at hfinite
      exact hfinite

/-- With a sound scaling factor, positions of a sound pattern are numbers. -/
theorem isNumber_position (hfactor : p.checkScaling = .ok ()) {e : StitchEvent}
    (he : e.isFinite = true) : (e.position p.scalingFactor).IsNumber := by
  unfold Parameters.checkScaling at hfactor
  split at hfactor
  · exact nomatch hfactor
  · next hfinite =>
    split at hfactor
    · exact nomatch hfactor
    · next hpos =>
      rw [Bool.not_eq_true, Bool.not_eq_false'] at hfinite
      obtain ⟨hx, hy⟩ := Bool.and_eq_true_iff.1 he
      exact ⟨isNaN_toMachine hx hfinite hpos, isNaN_toMachine hy hfinite hpos⟩

/-! ## The box of a program -/

/-- **The extent of a program.**  Write the program of a sound pattern to any sink.  The box of its
    summary is missing only if there are no events.  It encloses the positions of the events, and
    every move written for an event leads to a point in it.  The other moves are free ones in front
    of these: to the corners of the box, if they are to be visited, and to the origin. -/
theorem program_within_extent {held cause : Type} {sink : Sink held cause} {before after : held}
    {summary : Summary} (hpattern : pattern.check = .ok pattern)
    (h : generateInto sink before p pattern = (after, .ok summary)) :
    sink.takeAll before ((programOf p pattern).map Instruction.text) = (after, none) ∧
      (summary.bounds = none ↔ pattern.events = []) ∧
      (∀ b ∈ summary.bounds,
        b.Encloses (pattern.events.map (StitchEvent.position p.scalingFactor)) ∧
        ∀ s ∈ programStages p pattern, ∀ i ∈ s.written, i.LeadsTo b.Contains) ∧
      (programOf p pattern).filter Instruction.isMove =
        ((cornerTour p summary.bounds ++ [origin]).map fun spot =>
            .move .free (.at spot p.jumpSpeed)) ++
          ((programStages p pattern).flatMap Stage.written).filter Instruction.isMove := by
  obtain ⟨hp, -, htaken, rfl⟩ := of_generateInto h
  have hfinite := isFinite_of_checkEvents (check_eq_ok_iff.1 hpattern)
  have hnumbers : ∀ q ∈ pattern.events.map (StitchEvent.position p.scalingFactor),
      q.IsNumber := by
    intro q hq
    obtain ⟨e, he, rfl⟩ := List.mem_map.1 hq
    exact isNumber_position (Parameters.of_check hp).1 (hfinite e he)
  refine ⟨htaken, ?_, ?_, filter_isMove_programOf⟩
  · exact Bounds.ofPoints_eq_none_iff.trans List.map_eq_nil_iff
  · intro b hb
    have hencloses := Bounds.encloses_ofPoints hnumbers b hb
    refine ⟨hencloses, ?_⟩
    intro s hs i hi
    obtain ⟨hsound, hstage⟩ := sound_of_mem_stages Context.start_sound hs
    have hinside : b.Contains (s.event.position p.scalingFactor) :=
      hencloses.contains _ (List.mem_map_of_mem (event_mem_of_mem_stages hs))
    rw [hstage] at hi
    exact leadsTo_step hsound hinside i hi

/-- Two stitches whose box has its corners visited. -/
theorem extent_of_two_stitches :
    let p : Parameters := { visitCorners := true }
    let pattern : Pattern := ⟨none, [⟨0, 10, -10, .stitch⟩, ⟨1, 30, 20, .stitch⟩]⟩
    let b : Bounds := ⟨1, -1, 3, 2⟩
    pattern.check = .ok pattern ∧ ∃ lines summary,
      generateInto (Sink.lines : Sink (Array String) Empty) #[] p pattern = (lines, .ok summary) ∧
      summary.bounds = some b ∧
      (∀ s ∈ programStages p pattern, ∀ i ∈ s.written, i.LeadsTo b.Contains) ∧
      (programOf p pattern).filter Instruction.isMove =
        ([⟨1, -1⟩, ⟨1, 2⟩, ⟨3, 2⟩, ⟨3, -1⟩, origin].map fun spot =>
            .move .free (.at spot p.jumpSpeed)) ++
          ((programStages p pattern).flatMap Stage.written).filter Instruction.isMove := by
  intro p pattern b
  have hpattern : pattern.check = .ok pattern := check_eq_ok_iff.2 (by decide +kernel)
  have hp : p.check = .ok () := check_of_toOption (by decide +kernel)
  have hwritten : generateInto (Sink.lines : Sink (Array String) Empty) #[] p pattern = _ :=
    generateInto_following Array.push #[] hp (by decide)
  obtain ⟨-, -, hbox, hmoves⟩ := program_within_extent hpattern hwritten
  have hb : Bounds.ofPoints (pattern.events.map (StitchEvent.position p.scalingFactor)) =
      some b := by decide +kernel
  rw [hb] at hbox hmoves
  exact ⟨hpattern, _, _, hwritten, hb, (hbox b rfl).2, hmoves⟩

end
end Embroidery
