/-
  The latches of the machine over a program.

  Two things on the machine stay as they were left: the spindle, which needle cycles start, and the
  thread tension.  `Machine` interprets a program on them.  Which state each instruction may meet is
  written down as two rules: `Latched` for a whole program and `LatchedFor` for the instructions of
  an event.

  The parts of a step are shown one by one to take the latches from the state that the context
  claims to the next such state, with the rules obeyed on the way (`Carries`); the parts then
  compose.  The one step that depends on earlier ones is that of a stitch: that it is sewn, or left
  out, with both latches on rests on `Context.Sound`.
-/
import Embroidery.Proofs.Program.Written

namespace Embroidery

/-! ## The machine -/

/-- The latches of the machine. -/
structure Machine where
  spindle : Bool
  tension : Bool
deriving DecidableEq

namespace Machine

/-- Both latches off, as before a program. -/
def off : Machine := ⟨false, false⟩

/-- The latches after an instruction. -/
def execute (m : Machine) : Instruction → Machine
  | .needleCycle _ => { m with spindle := true }
  | .spindleStop => { m with spindle := false }
  | .tension on => { m with tension := on }
  | _ => m

/-- The latches after a list of instructions. -/
def executeAll (m : Machine) (is : List Instruction) : Machine := is.foldl execute m

/-- Each instruction is executed in a state that the rule allows for it. -/
def Obeys (rule : Machine → Instruction → Prop) (m : Machine) (is : List Instruction) : Prop :=
  ∀ before i after, is = before ++ i :: after → rule (m.executeAll before) i

/-- The rule of a whole program: sewing under tension, pauses that start a colour or insert the
    thread with both latches off, and no switch of the tension to what it is already. -/
def Latched (m : Machine) : Instruction → Prop
  | .move .sewing _ => m.tension = true
  | .needleCycle _ => m.tension = true
  | .pause (.colorStart _) => m = off
  | .pause .threadInserted => m = off
  | .tension on => m.tension = !on
  | _ => True

/-- The further rule for the instructions of an event: moves of any event but a stitch and the trim
    of a trim with both latches off, and no stop of a spindle at rest. -/
def LatchedFor (kind : StitchKind) (m : Machine) : Instruction → Prop
  | .move _ _ => kind ≠ .stitch → m = off
  | .pause .trim => kind = .trim → m = off
  | .spindleStop => m.spindle = true
  | _ => True

end Machine

/-- What a switch of the tension switches it to. -/
def Instruction.tensionSwitch : Instruction → Option Bool
  | .tension on => some on
  | _ => none

/-- Each switch of the tension is followed at once by the time to settle. -/
def Settles (is : List Instruction) : Prop :=
  ∀ before on after, is = before ++ .tension on :: after → after.head? = some (.dwell settleMillis)

/-- What a context holds of the latches. -/
def Context.machine (c : Context) : Machine := ⟨c.motorOn, c.tensionOn⟩

/-! ## Obeying a rule -/

section
variable {rule : Machine → Instruction → Prop}

namespace Machine

theorem executeAll_append (m : Machine) (is js : List Instruction) :
    m.executeAll (is ++ js) = (m.executeAll is).executeAll js :=
  List.foldl_append

theorem Obeys.nil (m : Machine) : Obeys rule m [] := by
  intro before i after h
  exact absurd h.symm (List.append_ne_nil_of_right_ne_nil _ (List.cons_ne_nil _ _))

theorem obeys_cons {m : Machine} {i : Instruction} {is : List Instruction} :
    Obeys rule m (i :: is) ↔ rule m i ∧ Obeys rule (m.execute i) is := by
  constructor
  · intro h
    refine ⟨h [] i is rfl, ?_⟩
    intro before j after hj
    exact h (i :: before) j after (congrArg (i :: ·) hj)
  · rintro ⟨hi, his⟩ before j after hj
    cases before with
    | nil =>
      obtain ⟨rfl, -⟩ := List.cons.inj hj
      exact hi
    | cons k before =>
      obtain ⟨rfl, hrest⟩ := List.cons.inj hj
      exact his before j after hrest

theorem obeys_append {m : Machine} {is js : List Instruction} :
    Obeys rule m (is ++ js) ↔ Obeys rule m is ∧ Obeys rule (m.executeAll is) js := by
  induction is generalizing m with
  | nil =>
    constructor
    · intro h
      exact ⟨Obeys.nil m, h⟩
    · rintro ⟨-, h⟩
      exact h
  | cons i is ih =>
    rw [List.cons_append, obeys_cons, obeys_cons, ih, and_assoc]
    rfl

end Machine

/-! ## Settling -/

theorem Settles.nil : Settles [] := by
  intro before on after h
  exact absurd h.symm (List.append_ne_nil_of_right_ne_nil _ (List.cons_ne_nil _ _))

theorem Settles.append {is js : List Instruction} (his : Settles is) (hjs : Settles js) :
    Settles (is ++ js) := by
  intro before on after h
  -- the switch stands in the second list, or in the first with part of it behind
  rcases List.append_eq_append_iff.1 h with ⟨between, rfl, hjs'⟩ | ⟨between, his', hafter⟩
  · exact hjs between on after hjs'
  · cases between with
    | nil => exact hjs [] on after hafter.symm
    | cons i between =>
      obtain ⟨rfl, rfl⟩ := List.cons.inj hafter
      show (between ++ js).head? = _
      rw [List.head?_append, his before on between his']
      rfl

theorem Settles.of_forall {is : List Instruction} (h : ∀ i ∈ is, i.tensionSwitch = none) :
    Settles is := by
  intro before on after his
  have hnone := h (.tension on) (his ▸ List.mem_append_right _ List.mem_cons_self)
  exact absurd hnone (Option.some_ne_none on)

/-! ## Carrying the latches -/

/-- Instructions that take the latches from one state to another, obeying a rule and letting the
    machine settle. -/
structure Carries (rule : Machine → Instruction → Prop) (m : Machine) (is : List Instruction)
    (m' : Machine) : Prop where
  ends : m.executeAll is = m'
  obeys : m.Obeys rule is
  settles : Settles is

namespace Carries

theorem nil (m : Machine) : Carries rule m [] m := ⟨rfl, .nil m, .nil⟩

theorem append {m₁ m₂ m₃ : Machine} {is js : List Instruction} (his : Carries rule m₁ is m₂)
    (hjs : Carries rule m₂ js m₃) : Carries rule m₁ (is ++ js) m₃ := by
  refine ⟨?_, Machine.obeys_append.2 ⟨his.obeys, ?_⟩, his.settles.append hjs.settles⟩
  · rw [Machine.executeAll_append, his.ends, hjs.ends]
  · rw [his.ends]
    exact hjs.obeys

theorem single {m : Machine} {i : Instruction} (hrule : rule m i)
    (hswitch : i.tensionSwitch = none) : Carries rule m [i] (m.execute i) := by
  refine ⟨rfl, Machine.obeys_cons.2 ⟨hrule, .nil _⟩, Settles.of_forall ?_⟩
  intro j hj
  rw [List.mem_singleton.1 hj]
  exact hswitch

/-- Instructions that leave the latches alone and are allowed. -/
theorem quiet {m : Machine} {is : List Instruction}
    (h : ∀ i ∈ is, m.execute i = m ∧ rule m i ∧ i.tensionSwitch = none) : Carries rule m is m := by
  induction is with
  | nil => exact nil m
  | cons i is ih =>
    obtain ⟨⟨hkept, hrule, hswitch⟩, his⟩ := List.forall_mem_cons.1 h
    have hfirst := single hrule hswitch
    rw [hkept] at hfirst
    exact hfirst.append (ih his)

theorem mono {rule' : Machine → Instruction → Prop} (h : ∀ m i, rule m i → rule' m i)
    {m m' : Machine} {is : List Instruction} (his : Carries rule m is m') :
    Carries rule' m is m' := by
  refine ⟨his.ends, ?_, his.settles⟩
  intro before i after hi
  exact h _ _ (his.obeys before i after hi)

end Carries
end

/-! ## The parts of a step -/

/-- Both rules for the instructions of an event. -/
def Machine.Safe (kind : StitchKind) (m : Machine) (i : Instruction) : Prop :=
  m.Latched i ∧ m.LatchedFor kind i

section
variable {p : Parameters} {total : Nat}

namespace Context
open Machine

variable (p total) in
theorem report_carries (kind : StitchKind) (index : Nat) (c : Context) (m : Machine) :
    Carries (Safe kind) m (report p total index c).2 m := by
  refine Carries.quiet ?_
  intro i hi
  obtain ⟨n, -, rfl⟩ := mem_report hi
  exact ⟨rfl, ⟨trivial, trivial⟩, rfl⟩

theorem setTension_carries (kind : StitchKind) (on : Bool) (c : Context) :
    Carries (Safe kind) c.machine (setTension on c).2 ⟨c.motorOn, on⟩ := by
  rw [setTension_snd]
  split
  · next h =>
    rw [machine, h]
    exact .nil _
  · next h =>
    have hswitch : c.tensionOn = !on := by
      cases on <;> simpa using h
    have hdwell : Obeys (Safe kind) ⟨c.motorOn, on⟩ [.dwell settleMillis] :=
      obeys_cons.2 ⟨⟨trivial, trivial⟩, .nil _⟩
    refine ⟨rfl, obeys_cons.2 ⟨⟨hswitch, trivial⟩, hdwell⟩, ?_⟩
    intro before on' after hsplit
    cases before with
    | nil =>
      obtain ⟨-, rfl⟩ := List.cons.inj hsplit
      rfl
    | cons j before =>
      -- behind the switch there is only the time to settle
      have hmem : Instruction.tension on' ∈ [Instruction.dwell settleMillis] := by
        rw [(List.cons.inj hsplit).2]
        exact List.mem_append_right _ List.mem_cons_self
      exact Instruction.noConfusion (List.mem_singleton.1 hmem)

/-- The end of a run turns both latches off. -/
theorem endRun_carries (kind : StitchKind) (c : Context) :
    Carries (Safe kind) c.machine (endRun c).2 off := by
  have hslack := setTension_carries kind false { c with motorOn := false }
  rw [setTension_snd] at hslack
  rw [endRun_snd, setTension_snd]
  refine .append ?_ hslack
  split
  · next h => exact .single ⟨trivial, h⟩ rfl
  · next h =>
    have hmotor : c.motorOn = false := Bool.eq_false_iff.2 h
    rw [machine, hmotor]
    exact .nil _

/-- A stitch that is sewn leaves both latches on. -/
theorem sew_carries (spot : Point) (c : Context) :
    Carries (Safe .stitch) c.machine (sew p spot c).2 ⟨true, true⟩ := by
  obtain ⟨u, v, speed, hu, hv, hsew⟩ := sew_snd (p := p) spot c
  have htension := setTension_carries .stitch true c
  have hmove : Carries (Safe .stitch) ⟨c.motorOn, true⟩
      [.move .sewing (.at spot p.stitchSpeed)] ⟨c.motorOn, true⟩ :=
    .single ⟨rfl, fun h => absurd rfl h⟩ rfl
  have haccelerate : Carries (Safe .stitch) ⟨c.motorOn, true⟩ u ⟨c.motorOn, true⟩ := by
    refine Carries.quiet ?_
    intro i hi
    obtain ⟨x, y, z, rfl⟩ := hu i hi
    exact ⟨rfl, ⟨trivial, trivial⟩, rfl⟩
  have hcycle : Carries (Safe .stitch) ⟨c.motorOn, true⟩ [.needleCycle (some speed)]
      ⟨true, true⟩ :=
    .single ⟨rfl, trivial⟩ rfl
  have htrim : Carries (Safe .stitch) ⟨true, true⟩ v ⟨true, true⟩ := by
    refine Carries.quiet ?_
    intro i hi
    rw [hv i hi]
    exact ⟨rfl, ⟨trivial, fun h => StitchKind.noConfusion h⟩, rfl⟩
  have hall := (htension.append hmove).append (haccelerate.append (hcycle.append htrim))
  rw [hsew]
  simpa only [List.append_assoc, List.singleton_append] using hall

theorem machine_sew (spot : Point) (c : Context) : (sew p spot c).1.machine = ⟨true, true⟩ := by
  obtain ⟨n, hn⟩ := sew_fst (p := p) spot c
  rw [hn]
  rfl

theorem freeMove_carries (e : StitchEvent) {kind : StitchKind} {m : Machine}
    (h : kind ≠ .stitch → m = off) : Carries (Safe kind) m [freeMove p e] m :=
  .single ⟨trivial, h⟩ rfl

/-! ## Steps -/

variable (p total) in
/-- Every step takes the latches from what its context holds to both on for a stitch, and both off
    for any other event, and the next context holds just that. -/
theorem step_carries {c : Context} (hc : c.Sound) (e : StitchEvent) :
    Carries (Safe e.kind) c.machine (step p total c e).2 (step p total c e).1.machine ∧
      (step p total c e).1.machine = ⟨e.kind = .stitch, e.kind = .stitch⟩ := by
  have houtcome := step_outcome p total hc e
  have hended :=
    (report_carries p total e.kind e.index c c.machine).append (endRun_carries e.kind c)
  have hfree : Carries (Safe e.kind) off [freeMove p e] off := freeMove_carries e fun _ => rfl
  have hreport := report_carries p total .stitch e.index c c.machine
  have hmove : Carries (Safe .stitch) c.machine [freeMove p e] c.machine :=
    freeMove_carries e fun h => absurd rfl h
  generalize step p total c e = after at houtcome ⊢
  cases houtcome with
  | moved r h =>
    refine ⟨hended.append hfree, ?_⟩
    rcases h with h | h
    · rw [h]
      rfl
    · rw [h]
      rfl
  | trimmed r h =>
    have htrim : Carries (Safe e.kind) off [.pause .trim] off :=
      .single ⟨trivial, fun _ => rfl⟩ rfl
    refine ⟨hended.append (hfree.append htrim), ?_⟩
    rw [h]
    rfl
  | recolored r h =>
    have hstart : Carries (Safe e.kind) off [.pause (.colorStart c.nextColor)] off :=
      .single ⟨rfl, trivial⟩ rfl
    refine ⟨hended.append (hstart.append hfree), ?_⟩
    rw [h]
    rfl
  | inserted r h hthread =>
    have hrest : c.machine = off := by
      obtain ⟨-, hmotor, htension⟩ := hc.slack hthread
      rw [machine, hmotor, htension]
      rfl
    have hinsert : Carries (Safe .stitch) c.machine [.pause .threadInserted] c.machine :=
      .single ⟨hrest, trivial⟩ rfl
    have hsew := sew_carries (p := p) (e.position p.scalingFactor)
      { c with reported := r, threaded := true }
    dsimp only
    rw [h, machine_sew]
    exact ⟨hreport.append ((hmove.append hinsert).append hsew), rfl⟩
  | sewn r h hthread =>
    have hsew := sew_carries (p := p) (e.position p.scalingFactor) { c with reported := r }
    dsimp only
    rw [h, machine_sew]
    exact ⟨hreport.append hsew, rfl⟩
  | rejected r h hthread hlast =>
    -- only a last stitch can be too close, and with one both latches are on already
    obtain ⟨hmotor, htension⟩ := hc.taut hlast
    rw [h]
    refine ⟨hreport.append hmove, ?_⟩
    show (⟨c.motorOn, c.tensionOn⟩ : Machine) = _
    rw [hmotor, htension]
    rfl

variable (p total) in
/-- The run lemma: a run takes the latches from what the first context holds to what the last one
    holds. -/
theorem run_carries {c : Context} (hc : c.Sound) (events : List StitchEvent) :
    Carries Latched c.machine (run p total c events).2 (run p total c events).1.machine := by
  induction events generalizing c with
  | nil => exact .nil _
  | cons e rest ih =>
    have hfirst := (step_carries p total hc e).1.mono fun _ _ h => h.1
    exact hfirst.append (ih (step_sound hc e))

/-- After a run the latches are as its last event leaves them. -/
theorem run_machine {c : Context} (hc : c.Sound) (events : List StitchEvent) (last : StitchEvent) :
    (run p total c (events ++ [last])).1.machine = ⟨last.kind = .stitch, last.kind = .stitch⟩ := by
  induction events generalizing c with
  | nil => exact (step_carries p total hc last).2
  | cons e rest ih => exact ih (step_sound hc e)

end Context

/-! ## Programs -/

open Machine

/-- The header leaves both latches off. -/
theorem programHeader_carries (survey : Survey) (name : Option String) :
    Carries Latched off (programHeader p survey name) off := by
  obtain ⟨body, hbody, hheader⟩ := programHeader_eq p survey
  have htitle : Carries Latched off (programTitle name) off := by
    cases name with
    | none => exact .nil off
    | some name => exact .single trivial rfl
  -- what prepares the machine touches neither latch
  have hquiet : Carries Latched off body off := by
    refine Carries.quiet ?_
    intro i hi
    have hprepares := hbody i hi
    cases i with
    | move kind target =>
      cases kind with
      | free => exact ⟨rfl, trivial, rfl⟩
      | sewing => exact Bool.noConfusion hprepares
    | pause code => exact Bool.noConfusion hprepares
    | needleCycle speed => exact Bool.noConfusion hprepares
    | tension on => exact Bool.noConfusion hprepares
    | spindleStop => exact Bool.noConfusion hprepares
    | _ => exact ⟨rfl, trivial, rfl⟩
  rw [hheader]
  exact htitle.append (hquiet.append (.single rfl rfl))

/-- Where a stage of a program starts, the latches are as its context holds. -/
theorem executeAll_prior {pattern : Pattern} {s : Stage} (hs : s ∈ programStages p pattern) :
    (off.executeAll s.prior = s.context.machine ∧ s.context.Sound) ∧
      s = .of p pattern.events.length s.context s.prior s.event := by
  have hstart := (programHeader_carries (p := p)
    (Survey.ofEvents p.scalingFactor pattern.events) pattern.name).ends
  refine forall_mem_stages (I := fun c prior => off.executeAll prior = c.machine ∧ c.Sound) ?_
    ⟨hstart, Context.start_sound⟩ pattern.events s hs
  rintro c prior e ⟨hprior, hc⟩
  obtain ⟨hstep, -⟩ := Context.step_carries p pattern.events.length hc e
  refine ⟨?_, Context.step_sound hc e⟩
  rw [executeAll_append, hprior, hstep.ends]

theorem execute_tension {m : Machine} {i : Instruction} (h : i.tensionSwitch = none) :
    (m.execute i).tension = m.tension := by
  cases i with
  | tension on => exact absurd h (Option.some_ne_none on)
  | _ => rfl

/-- Switches of the tension alternate, from the opposite of what it is. -/
theorem tensionSwitch_alternates {m : Machine} {is : List Instruction} (h : m.Obeys Latched is)
    (k : Nat) (on : Bool) (hk : (is.filterMap Instruction.tensionSwitch)[k]? = some on) :
    on = (!m.tension) ↔ k % 2 = 0 := by
  -- each switch meets the opposite of what it sets, so it fixes what the next one sets
  induction is generalizing m k with
  | nil => exact absurd hk.symm (Option.some_ne_none on)
  | cons i is ih =>
    obtain ⟨hi, his⟩ := obeys_cons.1 h
    cases hswitch : i.tensionSwitch with
    | none =>
      rw [List.filterMap_cons_none hswitch] at hk
      rw [← execute_tension hswitch]
      exact ih his k hk
    | some b =>
      rw [List.filterMap_cons_some hswitch] at hk
      have hib : i = .tension b := by
        cases i with
        | tension b' => exact congrArg _ (Option.some.inj hswitch)
        | _ => exact absurd hswitch.symm (Option.some_ne_none b)
      subst hib
      have hm : m.tension = !b := hi
      cases k with
      | zero =>
        have hb : b = on := Option.some.inj hk
        rw [hm, Bool.not_not, hb]
        exact iff_of_true rfl rfl
      | succ k =>
        have hrest : on = (!b) ↔ k % 2 = 0 := ih his k hk
        have hparity : (k + 1) % 2 = 0 ↔ ¬k % 2 = 0 := by omega
        rw [hm, Bool.not_not, hparity, ← hrest]
        cases on <;> cases b <;> decide

/-- **The latches over a program.**  The program of sound parameters and of events with at most 98
    colour changes is written.  The latches are both on after a stitch and both off after any other
    event, as the context holds; every instruction meets them as the rules ask; the tension is
    switched on, off, on and so forth, each time with the time to settle; and the program ends with
    the spindle off, the motors off, and the tension as the last event left it. -/
theorem latches_over_program {p : Parameters} {pattern : Pattern} (hp : p.check = .ok ())
    (hcolors : pattern.events.countP (·.kind = .colorChange) ≤ 98) :
    generate p pattern = .ok ((programOf p pattern).map Instruction.text) ∧
    (programStages p pattern).map Stage.event = pattern.events ∧
    (∀ s ∈ programStages p pattern,
      (∃ rest, programOf p pattern = s.prior ++ s.written ++ rest) ∧
      off.executeAll (s.prior ++ s.written) = ⟨s.next.motorOn, s.next.tensionOn⟩ ∧
      off.executeAll (s.prior ++ s.written) = ⟨s.isStitch, s.isStitch⟩ ∧
      (off.executeAll s.prior).Obeys (LatchedFor s.event.kind) s.written) ∧
    off.Obeys Latched (programOf p pattern) ∧
    (∀ k on, ((programOf p pattern).filterMap Instruction.tensionSwitch)[k]? = some on →
      (on = true ↔ k % 2 = 0)) ∧
    Settles (programOf p pattern) ∧
    off.executeAll (programOf p pattern) =
      ⟨false, pattern.events.getLast?.any (·.kind = .stitch)⟩ ∧
    (programOf p pattern).getLast? = some (.motors false) := by
  -- the header, the run and the footer are carried one after another
  have hrun := (programHeader_carries (p := p)
    (Survey.ofEvents p.scalingFactor pattern.events) pattern.name).append
    (Context.run_carries p pattern.events.length Context.start_sound pattern.events)
  have hfooter : ∀ m : Machine, Carries Latched m programFooter ⟨false, m.tension⟩ := by
    intro m
    exact Carries.append (.single trivial rfl) (.single trivial rfl)
  have hall := hrun.append (hfooter _)
  refine ⟨generate_eq hp hcolors, map_event_stages _ _ _, ?_, hall.obeys, ?_, hall.settles, ?_, ?_⟩
  · intro s hs
    obtain ⟨⟨hprior, hsound⟩, hstage⟩ := executeAll_prior hs
    obtain ⟨hstep, hlatches⟩ := Context.step_carries p pattern.events.length hsound s.event
    have hnext : off.executeAll (s.prior ++ s.written) = s.next.machine := by
      rw [executeAll_append, hprior, hstage]
      exact hstep.ends
    refine ⟨?_, hnext, ?_, ?_⟩
    · obtain ⟨rest, hrest⟩ := append_written_of_mem_stages hs
      exact ⟨rest ++ programFooter, by rw [programOf_eq, programStages, hrest, List.append_assoc]⟩
    · rw [hnext, hstage]
      exact hlatches
    · rw [hprior, hstage]
      exact (hstep.mono fun _ _ h => h.2).obeys
  · intro k on hk
    exact tensionSwitch_alternates hall.obeys k on hk
  · have hends : off.executeAll (programOf p pattern) = _ := hall.ends
    rw [hends]
    -- the footer leaves the tension as the run left it, which the last event decides
    rcases List.eq_nil_or_concat pattern.events with hnil | ⟨init, last, hlast⟩
    · rw [hnil]
      rfl
    · rw [hlast, List.concat_eq_append, Context.run_machine Context.start_sound,
        List.getLast?_append]
      rfl
  · rw [programOf, List.getLast?_append]
    rfl

/-- Two stitches with a trim between them. -/
theorem latches_over_two_pieces :
    let p : Parameters := {}
    let pattern : Pattern :=
      ⟨some "rose", [⟨0, 10, 10, .stitch⟩, ⟨1, 30, 10, .trim⟩, ⟨2, 50, 20, .stitch⟩]⟩
    p.check = .ok () ∧ pattern.events.countP (·.kind = .colorChange) ≤ 98 ∧
      Machine.off.executeAll (programOf p pattern) = ⟨false, true⟩ := by
  intro p pattern
  have hcolors : pattern.events.countP (·.kind = .colorChange) ≤ 98 := by decide
  obtain ⟨-, -, -, -, -, -, hends, -⟩ := latches_over_program check_default hcolors
  exact ⟨check_default, hcolors, hends⟩

end
end Embroidery
