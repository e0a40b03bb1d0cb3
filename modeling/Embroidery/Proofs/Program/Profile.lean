/-
  The accelerations that a program sets.

  Wherever a program sets accelerations, those of the X and the Y axis are the given ones, and that
  of the needle axis is the one for the low speed or the limit itself (`setsProfile_programOf`).  The
  one for the low speed is set in the header of every program.  So the limit of the needle axis is
  kept exactly if the acceleration at low speed is not above it (`needle_limit_kept_iff`).

  It is if the low speed is not above the high one; otherwise it need not be (`profile_beyond_limit`).
-/
import Embroidery.Proofs.Parameters
import Embroidery.Proofs.Program.Anchor
import Embroidery.Proofs.Program.Targets

namespace Embroidery

/-! ## Profiles -/

/-- The accelerations for the low and for the high speed of the needle. -/
def profiles (p : Parameters) : List Instruction :=
  Context.accelerate p p.zLowAcceleration ++ Context.accelerate p p.zHighAcceleration

/-- If the instruction sets accelerations, it is one of the two profiles. -/
def Instruction.SetsProfile (p : Parameters) (i : Instruction) : Prop :=
  i.isAcceleration = true → i ∈ profiles p

/-- The line sets accelerations. -/
def IsProfileLine (line : String) : Prop := line.toList.take 4 = "M201".toList

instance (line : String) : Decidable (IsProfileLine line) := inferInstanceAs (Decidable (_ = _))

/-- The line sets the given accelerations of the X and the Y axis, and one of the needle axis that is
    neither zero nor above its limit. -/
def KeepsLimits (a : AxisAcceleration) (line : String) : Prop :=
  ∃ z, 1 ≤ z ∧ z ≤ a.zMax ∧
    Instruction.parse line = .ok (.acceleration (some a.x) (some a.y) (some z))

section
variable {p : Parameters} {total : Nat} {a : AxisAcceleration} {pattern : Pattern}

theorem mem_profiles_iff (ha : p.acceleration = some a) {i : Instruction} :
    i ∈ profiles p ↔ i = .acceleration (some a.x) (some a.y) p.zLowAcceleration ∨
      i = .acceleration (some a.x) (some a.y) (some a.zMax) := by
  have hhigh : p.zHighAcceleration = some a.zMax := by
    rw [Parameters.zHighAcceleration, ha]
    rfl
  rw [profiles, Context.accelerate, Context.accelerate, ha, hhigh, List.mem_append,
    List.mem_singleton, List.mem_singleton]

theorem setsProfile_of_quiet {is : List Instruction} (h : ∀ i ∈ is, i.isQuiet = true) :
    ∀ i ∈ is, i.SetsProfile p := by
  intro i hi hset
  obtain ⟨-, -, -, hno⟩ := of_isQuiet (h i hi)
  rw [hno] at hset
  exact Bool.noConfusion hset

theorem setsProfile_of_not {i : Instruction} (h : i.isAcceleration = false) : i.SetsProfile p := by
  intro hset
  rw [h] at hset
  exact Bool.noConfusion hset

theorem setsProfile_low : ∀ i ∈ Context.accelerate p p.zLowAcceleration, i.SetsProfile p := by
  intro i hi _
  exact List.mem_append_left _ hi

theorem setsProfile_high : ∀ i ∈ Context.accelerate p p.zHighAcceleration, i.SetsProfile p := by
  intro i hi _
  exact List.mem_append_right _ hi

namespace Context

/-- A needle cycle sets the profile of its speed, if any. -/
theorem setsProfile_cycle (c : Context) : ∀ i ∈ (cycle p c).2, i.SetsProfile p := by
  have hcycle : ∀ speed, ∀ i ∈ [Instruction.needleCycle speed], i.SetsProfile p := by
    intro speed
    exact List.forall_mem_singleton.2 (setsProfile_of_not rfl)
  unfold cycle
  split
  · refine List.forall_mem_append.2 ⟨?_, hcycle _⟩
    split
    · exact setsProfile_low
    · exact List.forall_mem_nil _
  · split
    · exact List.forall_mem_append.2 ⟨setsProfile_high, hcycle _⟩
    · exact hcycle _

theorem setsProfile_sew (spot : Point) (c : Context) : ∀ i ∈ (sew p spot c).2, i.SetsProfile p := by
  have htrim : ∀ c : Context, ∀ i ∈ (trimAnchor c).2, i.SetsProfile p := by
    intro c i hi
    rw [mem_trimAnchor hi]
    exact setsProfile_of_not rfl
  unfold sew
  dsimp only
  refine List.forall_mem_append.2 ⟨List.forall_mem_append.2 ⟨?_, ?_⟩, htrim _⟩
  · exact setsProfile_of_quiet (setTension_quiet _ _)
  · exact List.forall_mem_cons.2 ⟨setsProfile_of_not rfl, setsProfile_cycle _⟩

/-- Where a step sets accelerations, it sets a profile. -/
theorem setsProfile_step {c : Context} (hc : c.Sound) (e : StitchEvent) :
    ∀ i ∈ (step p total c e).2, i.SetsProfile p := by
  have hreport : ∀ i ∈ (report p total e.index c).2, i.SetsProfile p :=
    setsProfile_of_quiet (report_quiet p total e.index c)
  have hended : ∀ i ∈ (report p total e.index c).2 ++ (endRun c).2, i.SetsProfile p :=
    List.forall_mem_append.2 ⟨hreport, setsProfile_of_quiet (endRun_quiet c)⟩
  have hfree : (freeMove p e).SetsProfile p := setsProfile_of_not rfl
  have hpause : ∀ code, (Instruction.pause code).SetsProfile p := fun _ => setsProfile_of_not rfl
  have houtcome := step_outcome p total hc e
  generalize step p total c e = after at houtcome ⊢
  cases houtcome with
  | moved r h => exact List.forall_mem_append.2 ⟨hended, List.forall_mem_singleton.2 hfree⟩
  | trimmed r h =>
    exact List.forall_mem_append.2
      ⟨hended, List.forall_mem_cons.2 ⟨hfree, List.forall_mem_singleton.2 (hpause _)⟩⟩
  | recolored r h =>
    exact List.forall_mem_append.2
      ⟨hended, List.forall_mem_cons.2 ⟨hpause _, List.forall_mem_singleton.2 hfree⟩⟩
  | inserted r h hthread =>
    refine List.forall_mem_append.2 ⟨hreport, List.forall_mem_append.2 ⟨?_, setsProfile_sew _ _⟩⟩
    exact List.forall_mem_cons.2 ⟨hfree, List.forall_mem_singleton.2 (hpause _)⟩
  | sewn r h hthread => exact List.forall_mem_append.2 ⟨hreport, setsProfile_sew _ _⟩
  | rejected r h hthread hlast =>
    exact List.forall_mem_append.2 ⟨hreport, List.forall_mem_singleton.2 hfree⟩

end Context

/-! ## Programs -/

theorem visit_quiet (spot : Point) (millis : UInt32) :
    ∀ i ∈ visit p spot millis, i.isQuiet = true :=
  List.forall_mem_cons.2 ⟨rfl, List.forall_mem_singleton.2 rfl⟩

theorem visitAll_quiet (corners : List Point) : ∀ i ∈ visitAll p corners, i.isQuiet = true := by
  induction corners with
  | nil => exact List.forall_mem_nil _
  | cons corner rest ih =>
    cases rest with
    | nil => exact visit_quiet corner lastCornerMillis
    | cons next rest => exact List.forall_mem_append.2 ⟨visit_quiet corner settleMillis, ih⟩

/-- Apart from the profile for the low speed, the header sets no accelerations. -/
theorem programHeader_profile (p : Parameters) (survey : Survey) (name : Option String) :
    ∃ before behind, (∀ i ∈ before ++ behind, i.isQuiet = true) ∧
      programHeader p survey name =
        before ++ Context.accelerate p p.zLowAcceleration ++ behind := by
  obtain ⟨corners, hvisited, hheader⟩ := programHeader_parts p survey
  have htitle : ∀ i ∈ programTitle name, i.isQuiet = true := by
    cases name with
    | none => exact List.forall_mem_nil _
    | some name => exact List.forall_mem_singleton.2 rfl
  have hready : ∀ i ∈ [Instruction.motors true, .progress 0], i.isQuiet = true :=
    List.forall_mem_cons.2 ⟨rfl, List.forall_mem_singleton.2 rfl⟩
  have hcorners : ∀ i ∈ corners, i.isQuiet = true := by
    rcases hvisited with rfl | ⟨b, -, rfl⟩
    · exact List.forall_mem_nil _
    · exact visitAll_quiet b.corners
  have hbehind : ∀ i ∈ [.dwell settleMillis] ++ corners ++ visit p origin settleMillis
      ++ [.pause (.colorStart 1)], i.isQuiet = true := by
    refine List.forall_mem_append.2 ⟨?_, List.forall_mem_singleton.2 rfl⟩
    refine List.forall_mem_append.2 ⟨?_, visit_quiet origin settleMillis⟩
    exact List.forall_mem_append.2 ⟨List.forall_mem_singleton.2 rfl, hcorners⟩
  refine ⟨programTitle name ++ [.motors true, .progress 0], _,
    List.forall_mem_append.2 ⟨List.forall_mem_append.2 ⟨htitle, hready⟩, hbehind⟩, ?_⟩
  rw [hheader]
  simp only [List.append_assoc]

/-- Where a program sets accelerations, it sets a profile. -/
theorem setsProfile_programOf (p : Parameters) (pattern : Pattern) :
    ∀ i ∈ programOf p pattern, i.SetsProfile p := by
  obtain ⟨before, behind, hquiet, hheader⟩ :=
    programHeader_profile p (Survey.ofEvents p.scalingFactor pattern.events) pattern.name
  obtain ⟨hbefore, hbehind⟩ := List.forall_mem_append.1 (setsProfile_of_quiet (p := p) hquiet)
  have hstages : ∀ i ∈ (programStages p pattern).flatMap Stage.written, i.SetsProfile p := by
    intro i hi
    obtain ⟨s, hs, hi⟩ := List.mem_flatMap.1 hi
    obtain ⟨hsound, hstage⟩ := sound_of_mem_stages Context.start_sound hs
    rw [hstage] at hi
    exact Context.setsProfile_step hsound s.event i hi
  have hfooter : ∀ i ∈ programFooter, i.SetsProfile p :=
    List.forall_mem_cons.2
      ⟨setsProfile_of_not rfl, List.forall_mem_singleton.2 (setsProfile_of_not rfl)⟩
  rw [programOf_eq, hheader]
  refine List.forall_mem_append.2 ⟨List.forall_mem_append.2 ⟨?_, hstages⟩, hfooter⟩
  exact List.forall_mem_append.2 ⟨List.forall_mem_append.2 ⟨hbefore, setsProfile_low⟩, hbehind⟩

/-- The profile for the low speed is set in the header. -/
theorem low_mem_programOf (ha : p.acceleration = some a) (pattern : Pattern) :
    .acceleration (some a.x) (some a.y) p.zLowAcceleration ∈ programOf p pattern := by
  obtain ⟨before, behind, -, hheader⟩ :=
    programHeader_profile p (Survey.ofEvents p.scalingFactor pattern.events) pattern.name
  have hlow : .acceleration (some a.x) (some a.y) p.zLowAcceleration ∈
      Context.accelerate p p.zLowAcceleration := by
    rw [Context.accelerate, ha]
    exact List.mem_singleton.2 rfl
  rw [programOf, hheader]
  refine List.mem_append_left _ (List.mem_append_left _ (List.mem_append_left _ ?_))
  exact List.mem_append_right _ hlow

/-! ## Lines -/

/-- The lines that set accelerations are those of the instructions that do. -/
theorem isProfileLine_text_iff {i : Instruction} (hi : i.Writable) :
    IsProfileLine i.text ↔ i.isAcceleration = true := by
  have hchars : "M201".toList = ['M', '2', '0', '1'] := by decide
  constructor
  · intro h
    obtain ⟨s, hs⟩ := exists_spelling hi
    have htwo : i.text.toList.take 2 = ['M', '2'] := by
      have htake : (i.text.toList.take 4).take 2 = i.text.toList.take 2 := List.take_take
      rw [← htake, show i.text.toList.take 4 = _ from h, hchars]
      rfl
    rw [take_two_of_spelling hs] at htwo
    obtain ⟨hletter, hdigit⟩ := List.cons.inj htwo
    -- of the commands with this letter only one starts with this digit
    cases i with
    | acceleration x y z => rfl
    | comment text => exact hi.elim
    | other text => exact hi.elim
    | move kind t => cases kind <;> (rw [← Option.some.inj hs] at hletter; exact nomatch hletter)
    | dwell millis => rw [← Option.some.inj hs] at hletter; exact nomatch hletter
    | motors on =>
      rw [← Option.some.inj hs] at hdigit
      cases on <;> exact absurd hdigit (by decide)
    | tension on =>
      rw [← Option.some.inj hs] at hdigit
      cases on <;> exact absurd hdigit (by decide)
    | _ =>
      rw [← Option.some.inj hs] at hdigit
      dsimp only at hdigit
      exact absurd hdigit (by decide)
  · intro h
    cases i with
    | acceleration x y z =>
      rw [IsProfileLine, Instruction.text, String.toList_ofList]
      show ("M201".toList ++ _ ++ _ ++ _).take 4 = _
      simp only [List.append_assoc]
      exact List.take_left' (by decide)
    | _ => exact Bool.noConfusion h

theorem not_isProfileLine_titleLine (name : String) : ¬IsProfileLine (titleLine name) := by
  have hchars : "M201".toList = ['M', '2', '0', '1'] := by decide
  rw [IsProfileLine, titleLine, String.toList_ofList, hchars]
  intro h
  exact absurd (List.cons.inj h).1 (by decide)

/-- A line keeps the limits if its instruction does. -/
theorem keepsLimits_text_iff {z : UInt32} :
    KeepsLimits a (Instruction.acceleration (some a.x) (some a.y) (some z)).text ↔
      1 ≤ z ∧ z ≤ a.zMax := by
  have hparse := parse_text (i := .acceleration (some a.x) (some a.y) (some z)) trivial
  constructor
  · rintro ⟨w, hlow, hhigh, h⟩
    have hback := Except.ok.inj (hparse.symm.trans h)
    have hsame : z = w := Option.some.inj (Instruction.acceleration.inj hback).2.2
    rw [hsame]
    exact ⟨hlow, hhigh⟩
  · rintro ⟨hlow, hhigh⟩
    exact ⟨z, hlow, hhigh, hparse⟩

/-- A line that sets accelerations sets those for the low speed or the limit itself. -/
theorem of_isProfileLine (ha : p.acceleration = some a) {z : UInt32}
    (hz : p.zLowAcceleration = some z) {line : String} (hline : line ∈ programLines p pattern)
    (hprofile : IsProfileLine line) : ∃ w, (w = z ∨ w = a.zMax) ∧
      line = (Instruction.acceleration (some a.x) (some a.y) (some w)).text := by
  rcases of_mem_programLines hline with ⟨name, rfl⟩ | ⟨i, hi, hback, rfl⟩
  · exact absurd hprofile (not_isProfileLine_titleLine name)
  · have hset := (isProfileLine_text_iff hback).1 hprofile
    rcases (mem_profiles_iff ha).1 (setsProfile_programOf p pattern i hi hset) with rfl | rfl
    · exact ⟨z, .inl rfl, by rw [hz]⟩
    · exact ⟨a.zMax, .inr rfl, rfl⟩

/-- **The limit of the needle axis.**  Every line of a program that sets accelerations sets the given
    ones of the X and the Y axis, and of the needle axis the one for the low speed or the limit,
    neither of which is zero.  None of these lines is above the limit exactly if the acceleration
    at low speed is not; and so it is if the low speed is not above the high one. -/
theorem needle_limit_kept_iff {lines : List String} (h : generate p pattern = .ok lines)
    (ha : p.acceleration = some a) :
    ((∀ line ∈ lines, IsProfileLine line → KeepsLimits a line) ↔
        ∀ z ∈ p.zLowAcceleration, z ≤ a.zMax) ∧
      (p.zLowSpeed ≤ p.zHighSpeed → ∀ line ∈ lines, IsProfileLine line → KeepsLimits a line) ∧
      ∀ line ∈ lines, IsProfileLine line → ∃ z, 1 ≤ z ∧
        (p.zLowAcceleration = some z ∨ z = a.zMax) ∧
        Instruction.parse line = .ok (.acceleration (some a.x) (some a.y) (some z)) := by
  obtain ⟨hp, -, rfl⟩ := of_generate h
  obtain ⟨husable, hne⟩ := Parameters.check_iff.1 hp
  obtain ⟨z, hz⟩ : ∃ z, p.zLowAcceleration = some z := by
    rw [Parameters.zLowAcceleration, ha]
    exact ⟨_, rfl⟩
  have hslow : 0 < p.zLowSpeed.toNat := UInt32.pos_iff_ne_zero.2 husable.zLow
  have hmax : 0 < a.zMax := UInt32.pos_iff_ne_zero.2 (husable.acceleration a ha).zMax
  have hpos : 0 < z := by
    refine UInt32.pos_iff_ne_zero.2 ?_
    rintro rfl
    exact hne hz
  have hkept_iff : (∀ line ∈ programLines p pattern, IsProfileLine line → KeepsLimits a line) ↔
      z ≤ a.zMax := by
    constructor
    · intro hkept
      have hlow := low_mem_programOf ha pattern
      rw [hz] at hlow
      have hprofile := (isProfileLine_text_iff (i := .acceleration (some a.x) (some a.y) (some z))
        trivial).2 rfl
      exact (keepsLimits_text_iff.1 (hkept _ (List.mem_map_of_mem hlow) hprofile)).2
    · intro hle line hline hprofile
      obtain ⟨w, hw, rfl⟩ := of_isProfileLine ha hz hline hprofile
      rcases hw with rfl | rfl
      · exact keepsLimits_text_iff.2 ⟨hpos, hle⟩
      · exact keepsLimits_text_iff.2 ⟨hmax, UInt32.le_refl _⟩
  refine ⟨?_, ?_, ?_⟩
  · rw [hkept_iff, hz]
    exact ⟨fun hle w hw => Option.some.inj hw ▸ hle, fun hle => hle z rfl⟩
  · intro hspeeds
    exact hkept_iff.2 (Parameters.zLowAcceleration_le hslow hspeeds ha hz)
  · intro line hline hprofile
    obtain ⟨w, hw, rfl⟩ := of_isProfileLine ha hz hline hprofile
    have hparse := parse_text (i := .acceleration (some a.x) (some a.y) (some w)) trivial
    rcases hw with rfl | rfl
    · exact ⟨w, hpos, .inl hz, hparse⟩
    · exact ⟨a.zMax, hmax, .inr rfl, hparse⟩

/-- Seven stitches at a third of the high speed and then at that speed: the needle axis is set to a
    ninth of its limit and then to the limit. -/
theorem needle_limit_of_seven_stitches :
    let p : Parameters := { acceleration := some ⟨300, 500, 1800⟩ }
    let pattern : Pattern := ⟨none, [⟨0, 10, 0, .stitch⟩, ⟨1, 20, 0, .stitch⟩, ⟨2, 30, 0, .stitch⟩,
      ⟨3, 40, 0, .stitch⟩, ⟨4, 50, 0, .stitch⟩, ⟨5, 60, 0, .stitch⟩, ⟨6, 70, 0, .stitch⟩]⟩
    ∃ lines, generate p pattern = .ok lines ∧ "M201 X300 Y500 Z200" ∈ lines ∧
      "M201 X300 Y500 Z1800" ∈ lines ∧
      ∀ line ∈ lines, IsProfileLine line → KeepsLimits ⟨300, 500, 1800⟩ line := by
  intro p pattern
  have hp : p.check = .ok () := check_of_toOption (by decide +kernel)
  have hlines : generate p pattern = .ok (programLines p pattern) := generate_eq hp (by decide)
  refine ⟨_, hlines, by decide +kernel, by decide +kernel, ?_⟩
  exact (needle_limit_kept_iff hlines rfl).2.1 (by decide)

/-- With the low speed at twice the high one, the acceleration at low speed is four times the
    limit. -/
theorem profile_beyond_limit :
    let p : Parameters :=
      { zLowSpeed := 400, zHighSpeed := 200, acceleration := some ⟨300, 500, 2000⟩ }
    let pattern : Pattern := ⟨none, [⟨0, 10, 10, .stitch⟩]⟩
    p.check = .ok () ∧ ∃ lines, generate p pattern = .ok lines ∧
      "M201 X300 Y500 Z8000" ∈ lines ∧ IsProfileLine "M201 X300 Y500 Z8000" ∧
      ¬KeepsLimits ⟨300, 500, 2000⟩ "M201 X300 Y500 Z8000" := by
  intro p pattern
  have hp : p.check = .ok () := check_of_toOption (by decide +kernel)
  have htext : "M201 X300 Y500 Z8000" =
      (Instruction.acceleration (some 300) (some 500) (some 8000)).text := by decide +kernel
  refine ⟨hp, programLines p pattern, generate_eq hp (by decide), by decide +kernel, by decide, ?_⟩
  rw [htext]
  intro hkept
  have hle := (keepsLimits_text_iff (a := ⟨300, 500, 2000⟩)).1 hkept
  exact absurd hle.2 (by decide)

end
end Embroidery
