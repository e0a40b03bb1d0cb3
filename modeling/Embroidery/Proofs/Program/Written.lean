/-
  What a program consists of, and when it is written.

  The header gives the name of the pattern, prepares the machine and starts the first colour
  (`programHeader_eq`).  But for the name, every instruction of a program comes back when its line
  is read, the coordinates of moves apart (`programOf_writable`): percentages are capped, and so are
  the numbers of colours.

  With sound parameters (`Parameters.of_check`), such as the default ones (`check_default`), and at
  most 98 colour changes every line of the program is handed over, and a sink that refuses no line
  holds what its function makes of them (`generateInto_following`).
-/
import Embroidery.Proofs.Instruction.Reread
import Embroidery.Proofs.Program.Stages
import Embroidery.Proofs.Results

namespace Embroidery

section
variable {p : Parameters} {total : Nat}

/-! ## The header -/

/-- An instruction that prepares the machine: it sews nothing and asks for nothing. -/
def Instruction.prepares : Instruction → Bool
  | .motors on => on
  | .progress percent => percent = 0
  | .acceleration _ _ _ => true
  | .dwell _ => true
  | .move .free _ => true
  | _ => false

theorem visit_prepares (spot : Point) (millis : UInt32) :
    ∀ i ∈ visit p spot millis, i.prepares = true := by
  intro i hi
  rcases List.mem_cons.1 hi with rfl | hi
  · rfl
  · rw [List.mem_singleton.1 hi]
    rfl

theorem visitAll_prepares (corners : List Point) : ∀ i ∈ visitAll p corners, i.prepares = true := by
  induction corners with
  | nil => exact List.forall_mem_nil _
  | cons corner rest ih =>
    cases rest with
    | nil => exact visit_prepares corner lastCornerMillis
    | cons next rest =>
      intro i hi
      rcases List.mem_append.1 hi with hi | hi
      · exact visit_prepares corner settleMillis i hi
      · exact ih i hi

/-- The comment with the name of a pattern, if it has one. -/
def programTitle (name : Option String) : List Instruction :=
  (name.map fun name => .comment (lowerText name)).toList

/-- The parts of the header.  The corners are visited if there are any and if that is asked for. -/
theorem programHeader_parts (p : Parameters) (survey : Survey) :
    ∃ corners, (corners = [] ∨ ∃ b ∈ survey.bounds, corners = visitAll p b.corners) ∧
      ∀ name, programHeader p survey name = programTitle name ++ [.motors true, .progress 0]
        ++ Context.accelerate p p.zLowAcceleration ++ [.dwell settleMillis] ++ corners
        ++ visit p origin settleMillis ++ [.pause (.colorStart 1)] := by
  unfold programHeader
  cases survey.bounds with
  | none => exact ⟨[], .inl rfl, fun name => by cases name <;> rfl⟩
  | some b =>
    dsimp only
    split
    · exact ⟨_, .inr ⟨b, rfl, rfl⟩, fun name => by cases name <;> rfl⟩
    · exact ⟨[], .inl rfl, fun name => by cases name <;> rfl⟩

/-- The header gives the name, prepares the machine and starts the first colour. -/
theorem programHeader_eq (p : Parameters) (survey : Survey) :
    ∃ body, (∀ i ∈ body, i.prepares = true) ∧ ∀ name,
      programHeader p survey name = programTitle name ++ (body ++ [.pause (.colorStart 1)]) := by
  obtain ⟨corners, hvisited, hheader⟩ := programHeader_parts p survey
  have hready : ∀ i ∈ [Instruction.motors true, .progress 0], i.prepares = true :=
    List.all_eq_true.1 rfl
  have haccelerate : ∀ i ∈ Context.accelerate p p.zLowAcceleration, i.prepares = true := by
    intro i hi
    obtain ⟨x, y, z, rfl⟩ := Context.mem_accelerate hi
    rfl
  have hsettle : ∀ i ∈ [Instruction.dwell settleMillis], i.prepares = true :=
    List.forall_mem_singleton.2 rfl
  have hprepares : ∀ i ∈ corners, i.prepares = true := by
    rcases hvisited with rfl | ⟨b, -, rfl⟩
    · exact List.forall_mem_nil _
    · exact visitAll_prepares b.corners
  refine ⟨[.motors true, .progress 0] ++ (Context.accelerate p p.zLowAcceleration ++
    ([.dwell settleMillis] ++ (corners ++ visit p origin settleMillis))), ?_, ?_⟩
  · intro i hi
    simp only [List.mem_append] at hi
    rcases hi with hi | hi | hi | hi | hi
    · exact hready i hi
    · exact haccelerate i hi
    · exact hsettle i hi
    · exact hprepares i hi
    · exact visit_prepares origin settleMillis i hi
  · intro name
    rw [hheader]
    simp only [List.append_assoc]

/-- The name of a pattern only adds a comment in front. -/
theorem programOf_named (p : Parameters) (name : String) (events : List StitchEvent) :
    programOf p ⟨some name, events⟩ = .comment (lowerText name) :: programOf p ⟨none, events⟩ := rfl

/-! ## Instructions that come back -/

theorem writable_of_prepares {i : Instruction} (h : i.prepares = true) : i.Writable := by
  cases i with
  | progress percent =>
    have hzero : percent = 0 := of_decide_eq_true h
    rw [hzero]
    exact Nat.zero_le 100
  | comment text => exact Bool.noConfusion h
  | pause code => exact Bool.noConfusion h
  | other text => exact Bool.noConfusion h
  | _ => trivial

namespace Context

/-- The sub-codes that start further colours are in their range, however many colours there are. -/
theorem nextColor_writable (c : Context) :
    (Instruction.pause (.colorStart c.nextColor)).Writable := by
  have hmax : maxColor = 99 := rfl
  have hnext : c.nextColor.toNat = min (c.color + 1) maxColor := by
    rw [nextColor, UInt8.toNat_ofNat']
    omega
  show 1 ≤ c.nextColor.toNat ∧ c.nextColor.toNat ≤ maxColor
  omega

/-- Every instruction of a step comes back. -/
theorem step_writable {c : Context} (hc : c.Sound) (e : StitchEvent) :
    ∀ i ∈ (step p total c e).2, i.Writable := by
  intro i hi
  rcases mem_step hc hi with ⟨n, hn, rfl⟩ | h
  · exact hn
  · cases h with
    | colorStart => exact nextColor_writable c
    | _ => trivial

end Context

/-- Every instruction of the program of a pattern without a name comes back. -/
theorem programOf_writable (p : Parameters) (events : List StitchEvent) :
    ∀ i ∈ programOf p ⟨none, events⟩, i.Writable := by
  obtain ⟨body, hbody, hheader⟩ := programHeader_eq p (Survey.ofEvents p.scalingFactor events)
  have hopening : ∀ i ∈ body ++ [.pause (.colorStart 1)], i.Writable := by
    intro i hi
    rcases List.mem_append.1 hi with hi | hi
    · exact writable_of_prepares (hbody i hi)
    · rw [List.mem_singleton.1 hi]
      exact ⟨by decide, by decide⟩
  have hrun : ∀ i ∈ (programStages p ⟨none, events⟩).flatMap Stage.written, i.Writable := by
    intro i hi
    obtain ⟨s, hs, hi⟩ := List.mem_flatMap.1 hi
    obtain ⟨hsound, hstage⟩ := sound_of_mem_stages Context.start_sound hs
    rw [hstage] at hi
    exact Context.step_writable hsound s.event i hi
  have hfooter : ∀ i ∈ programFooter, i.Writable :=
    List.forall_mem_cons.2 ⟨trivial, List.forall_mem_singleton.2 trivial⟩
  rw [programOf_eq, hheader]
  exact List.forall_mem_append.2 ⟨List.forall_mem_append.2 ⟨hopening, hrun⟩, hfooter⟩

/-- Instructions that are written alike read back alike. -/
theorem reread_eq_of_text_eq {i j : Instruction} (hi : i.Writable) (hj : j.Writable)
    (h : i.text = j.text) : i.reread = j.reread := by
  have hread := parse_text hi
  rw [h, parse_text hj] at hread
  exact (Except.ok.inj hread).symm

/-! ## Lines -/

/-- The lines of a pattern's program. -/
def programLines (p : Parameters) (pattern : Pattern) : List String :=
  (programOf p pattern).map Instruction.text

/-- The comment that gives a name. -/
def titleLine (name : String) : String := String.ofList (';' :: ' ' :: (lowerText name).toList)

theorem programLines_named (p : Parameters) (name : String) (events : List StitchEvent) :
    programLines p ⟨some name, events⟩ = titleLine name :: programLines p ⟨none, events⟩ := by
  rw [programLines, programOf_named]
  rfl

/-- A line of a program is its title or that of an instruction that comes back. -/
theorem of_mem_programLines {pattern : Pattern} {line : String}
    (h : line ∈ programLines p pattern) :
    (∃ name, line = titleLine name) ∨ ∃ i ∈ programOf p pattern, i.Writable ∧ line = i.text := by
  obtain ⟨name, events⟩ := pattern
  have hunnamed : ∀ line ∈ programLines p ⟨none, events⟩,
      ∃ i ∈ programOf p ⟨none, events⟩, i.Writable ∧ line = i.text := by
    intro line hline
    obtain ⟨i, hi, rfl⟩ := List.mem_map.1 hline
    exact ⟨i, hi, programOf_writable p events i hi, rfl⟩
  cases name with
  | none => exact .inr (hunnamed line h)
  | some name =>
    rw [programLines_named] at h
    rcases List.mem_cons.1 h with h | h
    · exact .inl ⟨name, h⟩
    · obtain ⟨i, hi, hwritable, hline⟩ := hunnamed line h
      exact .inr ⟨i, List.mem_cons_of_mem _ hi, hwritable, hline⟩

end

/-! ## Writing a program -/

section
variable {held cause : Type} {p : Parameters} {pattern : Pattern}

/-- A sink that refuses no line takes them all. -/
theorem Sink.takeAll_following (f : held → String → held) (h : held) (lines : List String) :
    (Sink.following f : Sink held cause).takeAll h lines = (lines.foldl f h, none) := by
  induction lines generalizing h with
  | nil => rfl
  | cons line rest ih => exact ih (f h line)

/-- Sound parameters and at most 98 colour changes are enough for a program to be written. -/
theorem generateInto_following (f : held → String → held) (h : held) (hp : p.check = .ok ())
    (hcolors : pattern.events.countP (·.kind = .colorChange) ≤ 98) :
    generateInto (Sink.following f : Sink held cause) h p pattern =
      ((programLines p pattern).foldl f h,
        .ok ⟨1 + pattern.events.countP (·.kind = .colorChange), (programLines p pattern).length,
          pattern.events.countP (·.kind = .stitch),
          Bounds.ofPoints (pattern.events.map (StitchEvent.position p.scalingFactor))⟩) := by
  -- so many changes need 99 colours, the most that pauses can start
  have hmax : ¬maxColor < (Survey.ofEvents p.scalingFactor pattern.events).colorCount := by
    show ¬99 < 1 + pattern.events.countP (·.kind = .colorChange)
    omega
  unfold generateInto
  rw [hp]
  dsimp only
  rw [if_neg hmax, Sink.takeAll_following]
  rfl

/-- A program is only written under these conditions, and then all its lines are taken. -/
theorem of_generateInto {sink : Sink held cause} {before after : held} {summary : Summary}
    (h : generateInto sink before p pattern = (after, .ok summary)) :
    p.check = .ok () ∧ pattern.events.countP (·.kind = .colorChange) ≤ 98 ∧
      sink.takeAll before (programLines p pattern) = (after, none) ∧
      summary = ⟨1 + pattern.events.countP (·.kind = .colorChange), (programLines p pattern).length,
        pattern.events.countP (·.kind = .stitch),
        Bounds.ofPoints (pattern.events.map (StitchEvent.position p.scalingFactor))⟩ := by
  unfold generateInto at h
  split at h
  · exact nomatch congrArg Prod.snd h
  · next hp =>
    dsimp only at h
    split at h
    · exact nomatch congrArg Prod.snd h
    · next hmax =>
      have hcolors : pattern.events.countP (·.kind = .colorChange) ≤ 98 := by
        have hfew : ¬99 < 1 + pattern.events.countP (·.kind = .colorChange) := hmax
        omega
      split at h
      · exact nomatch congrArg Prod.snd h
      · next held htaken =>
        obtain ⟨rfl, hsummary⟩ := Prod.mk.inj h
        exact ⟨hp, hcolors, htaken, (Except.ok.inj hsummary).symm⟩

theorem generate_eq (hp : p.check = .ok ())
    (hcolors : pattern.events.countP (·.kind = .colorChange) ≤ 98) :
    generate p pattern = .ok (programLines p pattern) := by
  unfold generate
  rw [Sink.lines, generateInto_following Array.push #[] hp hcolors]
  show Except.ok _ = Except.ok _
  rw [List.foldl_push_eq_append', Array.toList_append]
  rfl

/-- A program is only written under these conditions. -/
theorem of_generate {lines : List String} (h : generate p pattern = .ok lines) :
    p.check = .ok () ∧ pattern.events.countP (·.kind = .colorChange) ≤ 98 ∧
      lines = programLines p pattern := by
  cases hrun : generateInto (Sink.lines : Sink (Array String) Empty) #[] p pattern with
  | mk taken result =>
    cases result with
    | error fault =>
      rw [generate, hrun] at h
      exact nomatch h
    | ok summary =>
      obtain ⟨hp, hcolors, -, -⟩ := of_generateInto hrun
      exact ⟨hp, hcolors, Except.ok.inj (h.symm.trans (generate_eq hp hcolors))⟩

/-! ## Sound parameters -/

namespace Parameters

theorem pos_of_requirePositive {name : String} {value : UInt32}
    (h : requirePositive name value = .ok ()) : 0 < value.toNat := by
  unfold requirePositive at h
  split at h
  · exact nomatch h
  · next hne =>
    refine Nat.pos_of_ne_zero ?_
    intro hzero
    exact hne (UInt32.toNat_inj.1 hzero)

/-- What sound parameters are checked for. -/
theorem of_check (h : p.check = .ok ()) :
    p.checkScaling = .ok () ∧
      (0 < p.jumpSpeed.toNat ∧ 0 < p.stitchSpeed.toNat ∧ 0 < p.zLowSpeed.toNat ∧
        0 < p.zHighSpeed.toNat) ∧
      p.checkAcceleration = .ok () ∧ p.checkClearance = .ok () ∧ 0 < p.progressStep.toNat := by
  unfold check at h
  obtain ⟨_, hscaling, h⟩ := of_bind_eq_ok h
  obtain ⟨_, hjump, h⟩ := of_bind_eq_ok h
  obtain ⟨_, hstitch, h⟩ := of_bind_eq_ok h
  obtain ⟨_, hlow, h⟩ := of_bind_eq_ok h
  obtain ⟨_, hhigh, h⟩ := of_bind_eq_ok h
  obtain ⟨_, hacceleration, h⟩ := of_bind_eq_ok h
  obtain ⟨_, hclearance, hprogress⟩ := of_bind_eq_ok h
  exact ⟨hscaling, ⟨pos_of_requirePositive hjump, pos_of_requirePositive hstitch,
    pos_of_requirePositive hlow, pos_of_requirePositive hhigh⟩, hacceleration, hclearance,
    pos_of_requirePositive hprogress⟩

end Parameters

theorem check_of_toOption (h : p.check.toOption = some ()) : p.check = .ok () :=
  ok_of_toOption h

/-- The parameters that are used when none are given are sound. -/
theorem check_default : ({} : Parameters).check = .ok () := check_of_toOption (by decide +kernel)

/-- A pattern passes its check if there is no fault. -/
theorem check_eq_ok_iff :
    pattern.check = .ok pattern ↔ pattern.fault? = none := by
  unfold Pattern.check
  cases pattern.fault? with
  | none => exact ⟨fun _ => rfl, fun _ => rfl⟩
  | some fault => exact ⟨fun h => (nomatch h), fun h => (nomatch h)⟩

end
end Embroidery
