/-
  Which moves of a program can be read.

  Every move of a program leads to the origin, to a corner of the box of the pattern or to the
  position of an event (`leadsTo_programOf`), and every event has a move to its position.  The edges
  of the box are coordinates of events, so the corners ask for no more than the events do.

  A move reads back with both coordinates if a hundred times each of them is finite
  (`isUsableMove_text_iff`).  So all moves of a program can be read exactly if this holds of the
  positions of its events (`moves_usable_iff`).  That the coordinates are finite is not enough: the
  product can leave the finite numbers, and then the coordinate is written as infinite
  (`move_to_far_stitch`).
-/
import Embroidery.Proofs.Instruction.Coordinate
import Embroidery.Proofs.Program.Written

namespace Embroidery

-- Powers of naturals are those of core, whatever other instances are at hand.
attribute [local instance (2000)] instPowNat

/-! ## Moves and where they lead -/

/-- Both coordinates are between -10^300 and 10^300. -/
def StitchEvent.IsNear (e : StitchEvent) : Prop :=
  (-Binary64.ofNat (10 ^ (300 : Nat)) ≤ e.x ∧ e.x ≤ Binary64.ofNat (10 ^ (300 : Nat))) ∧
    -Binary64.ofNat (10 ^ (300 : Nat)) ≤ e.y ∧ e.y ≤ Binary64.ofNat (10 ^ (300 : Nat))

/-- A hundred times each coordinate is finite. -/
def Point.isWritable (q : Point) : Bool := (q.x * 100).isFinite && (q.y * 100).isFinite

/-- The line of a move. -/
def IsMoveLine (line : String) : Prop :=
  line.toList.take 2 = "G0".toList ∨ line.toList.take 2 = "G1".toList

/-- The line reads as a move with both coordinates, which are finite. -/
def IsUsableMove (line : String) : Prop :=
  ∃ kind x y feed, Instruction.parse line = .ok (.move kind ⟨some x, some y, feed⟩) ∧
    x.isFinite = true ∧ y.isFinite = true

/-- A move leads to a point with some property. -/
def Instruction.LeadsTo (ok : Point → Prop) : Instruction → Prop
  | .move _ t => ∃ spot feed, t = .at spot feed ∧ ok spot
  | _ => True

section
variable {p : Parameters} {total : Nat} {ok : Point → Prop}

/-! ## The moves of a step -/

/-- The moves of a step lead to the position of its event. -/
theorem leadsTo_step {c : Context} (hc : c.Sound) {e : StitchEvent}
    (he : ok (e.position p.scalingFactor)) : ∀ i ∈ (Context.step p total c e).2, i.LeadsTo ok := by
  intro i hi
  rcases Context.mem_step hc hi with ⟨n, -, rfl⟩ | h
  · trivial
  · cases h with
    | free => exact ⟨_, _, rfl, he⟩
    | sewing => exact ⟨_, _, rfl, he⟩
    | _ => trivial

/-- A step moves to the position of its event. -/
theorem exists_move_step {c : Context} (hc : c.Sound) (e : StitchEvent) :
    ∃ kind feed, Instruction.move kind (.at (e.position p.scalingFactor) feed) ∈
      (Context.step p total c e).2 := by
  have houtcome := Context.step_outcome p total hc e
  have hfree : ∀ is js, Context.freeMove p e ∈ is ++ Context.freeMove p e :: js := by
    intro is js
    exact List.mem_append_right _ List.mem_cons_self
  generalize Context.step p total c e = after at houtcome ⊢
  cases houtcome with
  | moved r h => exact ⟨_, _, hfree _ _⟩
  | trimmed r h => exact ⟨_, _, hfree _ _⟩
  | recolored r h =>
    exact ⟨_, _, List.mem_append_right _ (List.mem_cons_of_mem _ List.mem_cons_self)⟩
  | inserted r h hthread =>
    exact ⟨_, _, List.mem_append_right _ (List.mem_append_left _ List.mem_cons_self)⟩
  | sewn r h hthread =>
    obtain ⟨u, v, speed, -, -, hsew⟩ := Context.sew_snd (p := p) (e.position p.scalingFactor)
      { c with reported := r }
    refine ⟨.sewing, p.stitchSpeed, List.mem_append_right _ ?_⟩
    rw [hsew]
    exact List.mem_append_right _ List.mem_cons_self
  | rejected r h hthread hlast => exact ⟨_, _, hfree _ _⟩

/-! ## The moves of the header -/

theorem leadsTo_visit {spot : Point} (h : ok spot) (millis : UInt32) :
    ∀ i ∈ visit p spot millis, i.LeadsTo ok :=
  List.forall_mem_cons.2 ⟨⟨spot, p.jumpSpeed, rfl, h⟩, List.forall_mem_singleton.2 trivial⟩

theorem leadsTo_visitAll {corners : List Point} (h : ∀ corner ∈ corners, ok corner) :
    ∀ i ∈ visitAll p corners, i.LeadsTo ok := by
  induction corners with
  | nil => exact List.forall_mem_nil _
  | cons corner rest ih =>
    obtain ⟨hcorner, hrest⟩ := List.forall_mem_cons.1 h
    cases rest with
    | nil => exact leadsTo_visit hcorner lastCornerMillis
    | cons next rest =>
      exact List.forall_mem_append.2 ⟨leadsTo_visit hcorner settleMillis, ih hrest⟩

/-- The moves of the header lead to the corners of the box and to the origin. -/
theorem leadsTo_programHeader {survey : Survey} (horigin : ok origin)
    (hcorners : ∀ b ∈ survey.bounds, ∀ corner ∈ b.corners, ok corner) (name : Option String) :
    ∀ i ∈ programHeader p survey name, i.LeadsTo ok := by
  obtain ⟨corners, hvisited, hheader⟩ := programHeader_parts p survey
  have htitle : ∀ i ∈ programTitle name, i.LeadsTo ok := by
    cases name with
    | none => exact List.forall_mem_nil _
    | some name => exact List.forall_mem_singleton.2 trivial
  have hready : ∀ i ∈ [Instruction.motors true, .progress 0], i.LeadsTo ok :=
    List.forall_mem_cons.2 ⟨trivial, List.forall_mem_singleton.2 trivial⟩
  have haccelerate : ∀ i ∈ Context.accelerate p p.zLowAcceleration, i.LeadsTo ok := by
    intro i hi
    obtain ⟨x, y, z, rfl⟩ := Context.mem_accelerate hi
    trivial
  have hsettle : ∀ i ∈ [Instruction.dwell settleMillis], i.LeadsTo ok :=
    List.forall_mem_singleton.2 trivial
  have hleads : ∀ i ∈ corners, i.LeadsTo ok := by
    rcases hvisited with rfl | ⟨b, hb, rfl⟩
    · exact List.forall_mem_nil _
    · exact leadsTo_visitAll (hcorners b hb)
  have hstart : ∀ i ∈ [Instruction.pause (.colorStart 1)], i.LeadsTo ok :=
    List.forall_mem_singleton.2 trivial
  intro i hi
  rw [hheader] at hi
  simp only [List.mem_append] at hi
  rcases hi with (((((hi | hi) | hi) | hi) | hi) | hi) | hi
  · exact htitle i hi
  · exact hready i hi
  · exact haccelerate i hi
  · exact hsettle i hi
  · exact hleads i hi
  · exact leadsTo_visit horigin settleMillis i hi
  · exact hstart i hi

/-! ## The box of a pattern -/

theorem Binary64.least_cases (a b : Binary64) : a.least b = a ∨ a.least b = b := by
  unfold least
  split
  · exact .inr rfl
  · split
    · exact .inr rfl
    · exact .inl rfl

theorem Binary64.greatest_cases (a b : Binary64) : a.greatest b = a ∨ a.greatest b = b := by
  unfold greatest
  split
  · exact .inr rfl
  · split
    · exact .inr rfl
    · exact .inl rfl

/-- All edges of a box have some property. -/
structure Bounds.Edges (ok : Binary64 → Prop) (b : Bounds) : Prop where
  minX : ok b.minX
  minY : ok b.minY
  maxX : ok b.maxX
  maxY : ok b.maxY

/-- A box that grows has edges of the old box or coordinates of the point. -/
theorem Bounds.Edges.grow {ok : Binary64 → Prop} {b : Bounds} (hb : b.Edges ok) {q : Point}
    (hx : ok q.x) (hy : ok q.y) : (b.grow q).Edges ok := by
  have hleast : ∀ {u v : Binary64}, ok u → ok v → ok (u.least v) := by
    intro u v hu hv
    rcases u.least_cases v with h | h <;> rw [h] <;> assumption
  have hgreatest : ∀ {u v : Binary64}, ok u → ok v → ok (u.greatest v) := by
    intro u v hu hv
    rcases u.greatest_cases v with h | h <;> rw [h] <;> assumption
  exact ⟨hleast hb.minX hx, hleast hb.minY hy, hgreatest hb.maxX hx, hgreatest hb.maxY hy⟩

/-- The edges of a box are coordinates of its points. -/
theorem edges_ofPoints {ok : Binary64 → Prop} {points : List Point}
    (hpoints : ∀ q ∈ points, ok q.x ∧ ok q.y) : ∀ b ∈ Bounds.ofPoints points, b.Edges ok := by
  -- the box so far has such edges
  have hfold : ∀ (box : Option Bounds), (∀ b ∈ box, b.Edges ok) →
      ∀ b ∈ points.foldl (fun b q => some (Bounds.extend b q)) box, b.Edges ok := by
    induction points with
    | nil => exact fun box hbox => hbox
    | cons q points ih =>
      intro box hbox
      obtain ⟨⟨hx, hy⟩, hrest⟩ := List.forall_mem_cons.1 hpoints
      refine ih hrest (some (Bounds.extend box q)) ?_
      intro b hb
      rw [← Option.some.inj hb]
      cases box with
      | none => exact ⟨hx, hy, hx, hy⟩
      | some box => exact (hbox box rfl).grow hx hy
  exact hfold none (fun b hb => absurd hb.symm (Option.some_ne_none b))

theorem corners_of_edges {ok : Binary64 → Prop} {b : Bounds} (hb : b.Edges ok) :
    ∀ corner ∈ b.corners, ok corner.x ∧ ok corner.y :=
  List.forall_mem_cons.2 ⟨⟨hb.minX, hb.minY⟩, List.forall_mem_cons.2 ⟨⟨hb.minX, hb.maxY⟩,
    List.forall_mem_cons.2 ⟨⟨hb.maxX, hb.maxY⟩, List.forall_mem_singleton.2
      ⟨hb.maxX, hb.minY⟩⟩⟩⟩

/-! ## The moves of a program -/

theorem isWritable_iff {q : Point} :
    q.isWritable = true ↔ (q.x * 100).isFinite = true ∧ (q.y * 100).isFinite = true :=
  Bool.and_eq_true_iff

/-- If the positions of all events are writable, so are the points that the moves lead to. -/
theorem leadsTo_programOf {pattern : Pattern}
    (h : ∀ e ∈ pattern.events, (e.position p.scalingFactor).isWritable = true) :
    ∀ i ∈ programOf p pattern, i.LeadsTo (·.isWritable = true) := by
  have horigin : origin.isWritable = true := by decide +kernel
  have hpoints : ∀ q ∈ pattern.events.map (StitchEvent.position p.scalingFactor),
      (q.x * 100).isFinite = true ∧ (q.y * 100).isFinite = true := by
    intro q hq
    obtain ⟨e, he, rfl⟩ := List.mem_map.1 hq
    exact isWritable_iff.1 (h e he)
  have hcorners : ∀ b ∈ Bounds.ofPoints (pattern.events.map (StitchEvent.position p.scalingFactor)),
      ∀ corner ∈ b.corners, corner.isWritable = true := by
    intro b hb corner hcorner
    have hedges : b.Edges fun v => (v * 100).isFinite = true := edges_ofPoints hpoints b hb
    exact isWritable_iff.2 (corners_of_edges hedges corner hcorner)
  have hheader : ∀ i ∈ programHeader p (Survey.ofEvents p.scalingFactor pattern.events)
      pattern.name, i.LeadsTo (·.isWritable = true) :=
    leadsTo_programHeader horigin hcorners pattern.name
  have hstages : ∀ i ∈ (programStages p pattern).flatMap Stage.written,
      i.LeadsTo (·.isWritable = true) := by
    intro i hi
    obtain ⟨s, hs, hi⟩ := List.mem_flatMap.1 hi
    obtain ⟨hsound, hstage⟩ := sound_of_mem_stages Context.start_sound hs
    rw [hstage] at hi
    exact leadsTo_step hsound (h s.event (event_mem_of_mem_stages hs)) i hi
  have hfooter : ∀ i ∈ programFooter, i.LeadsTo (·.isWritable = true) :=
    List.forall_mem_cons.2 ⟨trivial, List.forall_mem_singleton.2 trivial⟩
  rw [programOf_eq]
  exact List.forall_mem_append.2 ⟨List.forall_mem_append.2 ⟨hheader, hstages⟩, hfooter⟩

/-- Every event of a pattern is moved to. -/
theorem exists_move_programOf {pattern : Pattern} {e : StitchEvent} (he : e ∈ pattern.events) :
    ∃ kind feed, Instruction.move kind (.at (e.position p.scalingFactor) feed) ∈
      programOf p pattern := by
  have hevents : (programStages p pattern).map Stage.event = pattern.events :=
    map_event_stages _ _ _
  rw [← hevents] at he
  obtain ⟨s, hs, rfl⟩ := List.mem_map.1 he
  obtain ⟨hsound, hstage⟩ := sound_of_mem_stages Context.start_sound hs
  obtain ⟨kind, feed, hmove⟩ : ∃ kind feed,
      Instruction.move kind (.at (s.event.position p.scalingFactor) feed) ∈ s.written :=
    hstage ▸ exists_move_step hsound s.event
  refine ⟨kind, feed, ?_⟩
  rw [programOf_eq]
  exact List.mem_append_left _ (List.mem_append_right _ (List.mem_flatMap.2 ⟨s, hs, hmove⟩))

/-! ## Lines -/

/-- What is read back is finite. -/
theorem isFinite_of_readBack {v x : Binary64} (h : readBack v = some x) : x.isFinite = true :=
  (Option.filter_eq_some_iff.1 h).2

/-- The line of a move is usable if the point that it leads to is writable. -/
theorem isUsableMove_text_iff (kind : MoveKind) (spot : Point) (feed : UInt32) :
    IsUsableMove (Instruction.move kind (.at spot feed)).text ↔ spot.isWritable = true := by
  have hparse := parse_text (i := .move kind (.at spot feed)) trivial
  rw [isWritable_iff, ← isSome_readBack, ← isSome_readBack]
  constructor
  · rintro ⟨kind', x, y, feed', h, -, -⟩
    rw [hparse] at h
    have htarget := (Instruction.move.inj (Except.ok.inj h)).2
    exact ⟨Option.isSome_of_eq_some (congrArg Target.x htarget),
      Option.isSome_of_eq_some (congrArg Target.y htarget)⟩
  · rintro ⟨hx, hy⟩
    obtain ⟨x, hx⟩ := Option.isSome_iff_exists.1 hx
    obtain ⟨y, hy⟩ := Option.isSome_iff_exists.1 hy
    refine ⟨kind, x, y, some feed, ?_, isFinite_of_readBack hx, isFinite_of_readBack hy⟩
    rw [hparse, ← hx, ← hy]
    rfl

/-- The first two characters of a line. -/
theorem take_two_of_spelling {i : Instruction} {s : Spelling} (h : i.spelling = some s) :
    i.text.toList.take 2 = s.letter :: (naturalChars s.number.toNat).take 1 := by
  rw [Instruction.text, String.toList_ofList, chars_of_spelling h, Spelling.chars]
  cases hdigits : naturalChars s.number.toNat with
  | nil => exact absurd hdigits (naturalChars_ne_nil _)
  | cons d rest => rfl

/-- The lines of moves are those of the instructions that move. -/
theorem isMoveLine_text_iff {i : Instruction} (hi : i.Writable) :
    IsMoveLine i.text ↔ ∃ kind t, i = .move kind t := by
  have hzero : "G0".toList = 'G' :: (naturalChars (0 : UInt32).toNat).take 1 := by decide
  have hone : "G1".toList = 'G' :: (naturalChars (1 : UInt32).toNat).take 1 := by decide
  obtain ⟨s, hs⟩ := exists_spelling hi
  rw [IsMoveLine, take_two_of_spelling hs, hzero, hone]
  constructor
  · intro h
    have hletter : s.letter = 'G' := by
      rcases h with h | h <;> exact (List.cons.inj h).1
    have hdigit :
        (naturalChars s.number.toNat).take 1 ≠ (naturalChars (4 : UInt32).toNat).take 1 := by
      rcases h with h | h <;> rw [(List.cons.inj h).2] <;> decide
    cases i with
    | move kind t => exact ⟨kind, t, rfl⟩
    | comment text => exact hi.elim
    | other text => exact hi.elim
    | dwell millis =>
      rw [← Option.some.inj hs] at hdigit
      exact absurd rfl hdigit
    | _ =>
      rw [← Option.some.inj hs] at hletter
      exact absurd (show 'M' = 'G' from hletter) (by decide)
  · rintro ⟨kind, t, rfl⟩
    cases kind with
    | free =>
      rw [← Option.some.inj hs]
      exact .inl rfl
    | sewing =>
      rw [← Option.some.inj hs]
      exact .inr rfl

theorem not_isMoveLine_titleLine (name : String) : ¬IsMoveLine (titleLine name) := by
  have hzero : "G0".toList = ['G', '0'] := by decide
  have hone : "G1".toList = ['G', '1'] := by decide
  rw [IsMoveLine, titleLine, String.toList_ofList, hzero, hone]
  rintro (h | h) <;> exact absurd (List.cons.inj h).1 (by decide)

/-- **The moves of a program.**  Every line of a move reads back with both coordinates, as finite
    numbers, exactly if a hundred times the coordinates of each event in machine units is finite.
    With a factor of at least one, this holds of coordinates up to 10^300. -/
theorem moves_usable_iff {pattern : Pattern} {lines : List String}
    (h : generate p pattern = .ok lines) :
    ((∀ line ∈ lines, IsMoveLine line → IsUsableMove line) ↔
        ∀ e ∈ pattern.events, (e.position p.scalingFactor).isWritable = true) ∧
      (1 ≤ p.scalingFactor → (∀ e ∈ pattern.events, e.IsNear) →
        ∀ line ∈ lines, IsMoveLine line → IsUsableMove line) := by
  obtain ⟨-, -, rfl⟩ := of_generate h
  have husable_iff : (∀ line ∈ programLines p pattern, IsMoveLine line → IsUsableMove line) ↔
      ∀ e ∈ pattern.events, (e.position p.scalingFactor).isWritable = true := by
    constructor
    · intro husable e he
      obtain ⟨kind, feed, hmove⟩ := exists_move_programOf (p := p) he
      have hline := List.mem_map_of_mem (f := Instruction.text) hmove
      refine (isUsableMove_text_iff kind _ feed).1 (husable _ hline ?_)
      have hback : (Instruction.move kind (.at (e.position p.scalingFactor) feed)).Writable :=
        trivial
      exact (isMoveLine_text_iff hback).2 ⟨kind, _, rfl⟩
    · intro hwritable line hline hmoves
      rcases of_mem_programLines hline with ⟨name, rfl⟩ | ⟨i, hi, hback, rfl⟩
      · exact absurd hmoves (not_isMoveLine_titleLine name)
      · obtain ⟨kind, t, rfl⟩ := (isMoveLine_text_iff hback).1 hmoves
        obtain ⟨spot, feed, rfl, hspot⟩ := leadsTo_programOf hwritable _ hi
        exact (isUsableMove_text_iff kind spot feed).2 hspot
  refine ⟨husable_iff, fun hfactor hnear => husable_iff.2 fun e he => ?_⟩
  obtain ⟨⟨hlowX, hhighX⟩, hlowY, hhighY⟩ := hnear e he
  exact isWritable_iff.2 ⟨isFinite_toMachine_mul hfactor hlowX hhighX,
    isFinite_toMachine_mul hfactor hlowY hhighY⟩

/-- A stitch at an ordinary place, and the corner moves around it. -/
theorem moves_usable_of_near_stitch :
    let p : Parameters := { visitCorners := true }
    let pattern : Pattern := ⟨none, [⟨0, 10, -10, .stitch⟩]⟩
    ∃ lines, generate p pattern = .ok lines ∧
      ∀ line ∈ lines, IsMoveLine line → IsUsableMove line := by
  intro p pattern
  have hp : p.check = .ok () := check_of_toOption (by decide +kernel)
  have hlines : generate p pattern = .ok (programLines p pattern) := generate_eq hp (by decide)
  exact ⟨_, hlines, (moves_usable_iff hlines).1.2 (by decide +kernel)⟩

/-- A stitch so far away that its coordinate is finite in machine units, but a hundred times it is
    not: both moves to it are written without a readable number. -/
theorem move_to_far_stitch :
    let p : Parameters := {}
    let pattern : Pattern := ⟨none, [⟨0, Binary64.ofNat (10 ^ (308 : Nat)), 0, .stitch⟩]⟩
    pattern.check = .ok pattern ∧
      (∀ e ∈ pattern.events, (e.x / p.scalingFactor).isFinite = true) ∧
      ∃ lines, generate p pattern = .ok lines ∧
        ∃ line ∈ lines, IsMoveLine line ∧ ¬IsUsableMove line := by
  intro p pattern
  refine ⟨check_eq_ok_iff.2 (by decide +kernel), by decide +kernel, programLines p pattern,
    generate_eq check_default (by decide), "G1 Xinf Y0.00 F800", by decide +kernel,
    .inr (by decide), ?_⟩
  rintro ⟨kind, x, y, feed, hparse, -, -⟩
  have hread : (Instruction.parse "G1 Xinf Y0.00 F800").toOption =
      some (.move .sewing ⟨none, some 0, some 800⟩) := by decide +kernel
  rw [hparse] at hread
  have htarget := (Instruction.move.inj (Option.some.inj hread)).2
  exact absurd (congrArg Target.x htarget) (Option.some_ne_none x)

end
end Embroidery
