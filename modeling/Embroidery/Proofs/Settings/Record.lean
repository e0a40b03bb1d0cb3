/-
  Settings come back from their document, and what is left of them without null.

  A record is read from its fields, whatever document they come from (`ofDocument_of_record`).  As
  it was written, an absent option is null, which is read as absent (`Settings.ofDocument_members`).
  A file that has no null leaves the option out, and then its default counts: an absent clearance
  stays absent, but an absent acceleration does not (`Settings.ofDocument_kept`).
-/
import Embroidery.Proofs.Document.Json
import Embroidery.Proofs.Document.Toml.RoundTrip
import Embroidery.Settings.Storage

namespace Embroidery

open Document (orDefault required optional asList asWord asFloat asBool asString)

variable {surplus : Bool} {d : Document}

/-! ## Fields -/

theorem Document.asWord_toNat (x : UInt32) : (Document.integer x.toNat).asWord = some x := by
  have hlt : (x.toNat : Int) < UInt32.size := Int.ofNat_lt.2 x.toNat_lt
  rw [asWord, asNatBelow, if_pos ⟨Int.natCast_nonneg _, hlt⟩]
  exact congrArg some UInt32.ofNat_toNat

theorem orDefault_some {α : Type} (fallback : α) (read : Document → Option α) (d : Document) :
    orDefault fallback read (some d) = read d := rfl

theorem required_word (x : UInt32) : required asWord (some (.integer x.toNat)) = some x := by
  rw [required, Option.bind_some, Document.asWord_toNat]

theorem orDefault_word (fallback x : UInt32) :
    orDefault fallback asWord (some (.integer x.toNat)) = some x := by
  rw [orDefault_some, Document.asWord_toNat]

theorem asList_paths (paths : List Path) :
    asList Path.ofDocument (.list (paths.map fun p => .string p.text)) = some paths := by
  show (paths.map fun p => Document.string p.text).mapM Path.ofDocument = some paths
  induction paths with
  | nil => rfl
  | cons p paths ih =>
    rw [List.map_cons, List.mapM_cons, ih]
    rfl

/-! ## Records from their fields -/

theorem AxisAcceleration.ofDocument_of_record {a : AxisAcceleration} {x y zMax : Option Document}
    (hrecord : d.record surplus ["x", "y", "z_max"] = some [x, y, zMax])
    (hx : required asWord x = some a.x) (hy : required asWord y = some a.y)
    (hzMax : required asWord zMax = some a.zMax) :
    AxisAcceleration.ofDocument surplus d = some a := by
  rw [AxisAcceleration.ofDocument, hrecord]
  simp only [Option.bind_eq_bind, Option.bind_some, hx, hy, hzMax]
  rfl

theorem MachineSettings.ofDocument_of_record {m : MachineSettings}
    {jump stitch zLow zHigh acceleration : Option Document}
    (hrecord : d.record surplus
        ["jump_speed", "stitch_speed", "z_low_speed", "z_high_speed", "acceleration"] =
      some [jump, stitch, zLow, zHigh, acceleration])
    (hjump : orDefault ({} : MachineSettings).jumpSpeed asWord jump = some m.jumpSpeed)
    (hstitch : orDefault ({} : MachineSettings).stitchSpeed asWord stitch = some m.stitchSpeed)
    (hzLow : orDefault ({} : MachineSettings).zLowSpeed asWord zLow = some m.zLowSpeed)
    (hzHigh : orDefault ({} : MachineSettings).zHighSpeed asWord zHigh = some m.zHighSpeed)
    (hacceleration : orDefault ({} : MachineSettings).acceleration
      (optional (AxisAcceleration.ofDocument surplus)) acceleration = some m.acceleration) :
    MachineSettings.ofDocument surplus d = some m := by
  rw [MachineSettings.ofDocument, hrecord]
  simp only [Option.bind_eq_bind, Option.bind_some, hjump, hstitch, hzLow, hzHigh, hacceleration]
  rfl

theorem GenerationSettings.ofDocument_of_record {g : GenerationSettings}
    {scaling clearance corners progress : Option Document}
    (hrecord : d.record surplus ["scaling_factor", "clearance", "visit_corners", "progress_step"] =
      some [scaling, clearance, corners, progress])
    (hscaling : orDefault ({} : GenerationSettings).scalingFactor asFloat scaling =
      some g.scalingFactor)
    (hclearance : orDefault ({} : GenerationSettings).clearance (optional asFloat) clearance =
      some g.clearance)
    (hcorners : orDefault ({} : GenerationSettings).visitCorners asBool corners =
      some g.visitCorners)
    (hprogress : orDefault ({} : GenerationSettings).progressStep asWord progress =
      some g.progressStep) :
    GenerationSettings.ofDocument surplus d = some g := by
  rw [GenerationSettings.ofDocument, hrecord]
  simp only [Option.bind_eq_bind, Option.bind_some, hscaling, hclearance, hcorners, hprogress]
  rfl

theorem Settings.ofDocument_of_record {s : Settings} {recent machine generation : Option Document}
    (hrecord : d.record surplus ["recent_files", "machine", "generation"] =
      some [recent, machine, generation])
    (hrecent : orDefault [] (asList Path.ofDocument) recent = some s.recentFiles)
    (hmachine : orDefault {} (MachineSettings.ofDocument surplus) machine = some s.machine)
    (hgeneration : orDefault {} (GenerationSettings.ofDocument surplus) generation =
      some s.generation) :
    Settings.ofDocument surplus d = some s := by
  rw [Settings.ofDocument, hrecord]
  simp only [Option.bind_eq_bind, Option.bind_some, hrecent, hmachine, hgeneration]
  rfl

/-! ## The document of settings -/

theorem AxisAcceleration.ofDocument_toDocument (surplus : Bool) (a : AxisAcceleration) :
    AxisAcceleration.ofDocument surplus a.toDocument = some a :=
  ofDocument_of_record rfl (required_word a.x) (required_word a.y) (required_word a.zMax)

/-- An option that is written as null where it is absent. -/
theorem orDefault_optional {α : Type} {read : Document → Option α} {write : α → Document}
    (hread : ∀ a, read (write a) = some a) (hnull : ∀ a, write a ≠ .null) (fallback x : Option α) :
    orDefault fallback (optional read) (some ((x.map write).getD .null)) = some x := by
  cases x with
  | none => rfl
  | some a =>
    rw [orDefault_some, Option.map_some, Option.getD_some]
    unfold Document.optional
    split
    · next heq => exact absurd heq (hnull a)
    · rw [hread]
      rfl

theorem MachineSettings.ofDocument_toDocument (surplus : Bool) (m : MachineSettings) :
    MachineSettings.ofDocument surplus m.toDocument = some m :=
  ofDocument_of_record rfl (orDefault_word _ _) (orDefault_word _ _) (orDefault_word _ _)
    (orDefault_word _ _) (orDefault_optional (AxisAcceleration.ofDocument_toDocument surplus)
      (fun _ h => nomatch h) _ _)

theorem GenerationSettings.ofDocument_toDocument (surplus : Bool) (g : GenerationSettings) :
    GenerationSettings.ofDocument surplus g.toDocument = some g := by
  have hclearance : orDefault none (optional asFloat) (some ((g.clearance.map .float).getD .null)) =
      some g.clearance :=
    orDefault_optional (fun c : Binary64 => (rfl : asFloat (.float c) = some c))
      (fun _ h => nomatch h) none g.clearance
  exact ofDocument_of_record rfl rfl hclearance rfl (orDefault_word _ _)

/-- Settings come back from their document. -/
theorem Settings.ofDocument_members (surplus : Bool) (s : Settings) :
    Settings.ofDocument surplus (.table s.members) = some s := by
  refine ofDocument_of_record rfl ?_ ?_ ?_
  · rw [orDefault_some, asList_paths]
  · rw [orDefault_some, MachineSettings.ofDocument_toDocument]
  · rw [orDefault_some, GenerationSettings.ofDocument_toDocument]

/-! ## Without what is null -/

/-- The settings that are left when an absent acceleration is left out: the limits of the machine's
    defaults stand in. -/
def Settings.withLimits (s : Settings) : Settings :=
  { s with machine.acceleration := s.machine.acceleration.or ({} : MachineSettings).acceleration }

/-- Nothing stands in where an acceleration is set, and only there. -/
theorem Settings.withLimits_eq_self_iff (s : Settings) :
    s.withLimits = s ↔ s.machine.acceleration.isSome = true := by
  obtain ⟨recent, machine, generation⟩ := s
  obtain ⟨jump, stitch, zLow, zHigh, acceleration⟩ := machine
  cases acceleration with
  | none => exact ⟨fun h => (nomatch h), fun h => (nomatch h)⟩
  | some a => exact ⟨fun _ => rfl, fun _ => rfl⟩

theorem MachineSettings.ofDocument_kept (m : MachineSettings) :
    MachineSettings.ofDocument true (Toml.kept m.toDocument) =
      some { m with acceleration := m.acceleration.or ({} : MachineSettings).acceleration } := by
  obtain ⟨jump, stitch, zLow, zHigh, acceleration⟩ := m
  cases acceleration with
  | none =>
    exact ofDocument_of_record rfl (orDefault_word _ _) (orDefault_word _ _) (orDefault_word _ _)
      (orDefault_word _ _) rfl
  | some a =>
    exact ofDocument_of_record rfl (orDefault_word _ _) (orDefault_word _ _) (orDefault_word _ _)
      (orDefault_word _ _) (orDefault_optional (AxisAcceleration.ofDocument_toDocument true)
        (fun _ h => nomatch h) _ (some a))

theorem GenerationSettings.ofDocument_kept (g : GenerationSettings) :
    GenerationSettings.ofDocument true (Toml.kept g.toDocument) = some g := by
  obtain ⟨scaling, clearance, corners, progress⟩ := g
  cases clearance with
  | none => exact ofDocument_of_record rfl rfl rfl rfl (orDefault_word _ _)
  | some c => exact ofDocument_of_record rfl rfl rfl rfl (orDefault_word _ _)

/-- Settings from what a file without null keeps of their document. -/
theorem Settings.ofDocument_kept (s : Settings) :
    Settings.ofDocument true (Toml.kept (.table s.members)) = some s.withLimits := by
  have hrecord : (Toml.kept (.table s.members)).record true
      ["recent_files", "machine", "generation"] =
        some [some (.list (s.recentFiles.map fun p => .string p.text)),
          some (Toml.kept s.machine.toDocument), some (Toml.kept s.generation.toDocument)] := rfl
  refine ofDocument_of_record hrecord ?_ ?_ ?_
  · rw [orDefault_some, asList_paths]
    rfl
  · rw [orDefault_some, MachineSettings.ofDocument_kept]
    rfl
  · rw [orDefault_some, GenerationSettings.ofDocument_kept]
    rfl

/-! ## Documents that can be written -/

theorem jsonInRange_word (x : UInt32) : Json.InRange x.toNat := by
  have hlt : x.toNat < 4294967296 := x.toNat_lt
  have hmax : Json.maxWord64 = 18446744073709551615 := rfl
  have hmin : UInt64.size / 2 = 9223372036854775808 := rfl
  rw [Json.InRange, hmax, hmin]
  omega

theorem tomlInRange_word (x : UInt32) : Toml.InRange x.toNat := by
  have hlt : x.toNat < 4294967296 := x.toNat_lt
  have hmax : Int64.maxValue.toInt = 9223372036854775807 := rfl
  have hmin : Int64.minValue.toInt = -9223372036854775808 := rfl
  rw [Toml.InRange, hmax, hmin]
  omega

/-- The document of settings can be written as JSON, if its floats can. -/
theorem Settings.json_expressible {s : Settings}
    (hscaling : Json.Expressible (.float s.generation.scalingFactor))
    (hclearance : ∀ c, s.generation.clearance = some c → Json.Expressible (.float c)) :
    Json.Expressible (.table s.members) := by
  have hword : ∀ x : UInt32, Json.Expressible (.integer x.toNat) :=
    fun x => .integer (jsonInRange_word x)
  have hpaths : ∀ d ∈ s.recentFiles.map fun p => Document.string p.text, Json.Expressible d := by
    intro d hd
    obtain ⟨p, -, rfl⟩ := List.mem_map.1 hd
    exact .string p.text
  have hlimits : Json.Expressible
      ((s.machine.acceleration.map AxisAcceleration.toDocument).getD .null) := by
    cases s.machine.acceleration with
    | none => exact .null
    | some a =>
      refine .table (by simp) ?_
      simp [hword]
  have hleast : Json.Expressible ((s.generation.clearance.map .float).getD .null) := by
    cases hc : s.generation.clearance with
    | none => exact .null
    | some c => exact hclearance c hc
  have hmachine : Json.Expressible s.machine.toDocument := by
    refine .table (by simp) ?_
    simp [hword, hlimits]
  have hgeneration : Json.Expressible s.generation.toDocument := by
    refine .table (by simp) ?_
    simp [hword, hscaling, hleast, Json.Expressible.bool]
  refine .table (by simp [Settings.members]) ?_
  simp [Settings.members, hmachine, hgeneration, Json.Expressible.list hpaths]

/-- The document of settings can be stored as TOML, if its floats can. -/
theorem Settings.toml_storable {s : Settings} (hscaling : Toml.ReadsBack s.generation.scalingFactor)
    (hclearance : ∀ c, s.generation.clearance = some c → Toml.ReadsBack c) :
    Toml.Storable 0 s.members := by
  have hword : ∀ (level : Nat) (x : UInt32), Toml.Fits level (.integer x.toNat) :=
    fun level x => .inr (.inl (.integer (tomlInRange_word x)))
  have hpaths : Toml.Fits 0 (.list (s.recentFiles.map fun p => .string p.text)) := by
    refine .inr (.inl (.list fun d hd => ?_))
    obtain ⟨p, -, rfl⟩ := List.mem_map.1 hd
    exact .string p.text
  have hlimits : Toml.Fits 1
      ((s.machine.acceleration.map AxisAcceleration.toDocument).getD .null) := by
    cases s.machine.acceleration with
    | none => exact .inl rfl
    | some a =>
      refine .inr (.inr ⟨_, rfl, .of_keys ["x", "y", "z_max"] rfl (by decide) (by decide)
        (by decide) ?_⟩)
      simp [hword]
  have hleast : Toml.Fits 1 ((s.generation.clearance.map .float).getD .null) := by
    cases hc : s.generation.clearance with
    | none => exact .inl rfl
    | some c => exact .inr (.inl (.float (hclearance c hc)))
  have hmachine : Toml.Fits 0 s.machine.toDocument := by
    refine .inr (.inr ⟨_, rfl, .of_keys ["jump_speed", "stitch_speed", "z_low_speed",
      "z_high_speed", "acceleration"] rfl (by decide) (by decide) (by decide) ?_⟩)
    simp [hword, hlimits]
  have hgeneration : Toml.Fits 0 s.generation.toDocument := by
    have hfactor : Toml.Fits 1 (.float s.generation.scalingFactor) := .inr (.inl (.float hscaling))
    have hcorners : Toml.Fits 1 (.bool s.generation.visitCorners) := .inr (.inl (.bool _))
    refine .inr (.inr ⟨_, rfl, .of_keys ["scaling_factor", "clearance", "visit_corners",
      "progress_step"] rfl (by decide) (by decide) (by decide) ?_⟩)
    simp [hword, hfactor, hleast, hcorners]
  refine .of_keys ["recent_files", "machine", "generation"] rfl (by decide) (by decide)
    (by decide) ?_
  simp [Settings.members, hpaths, hmachine, hgeneration]

end Embroidery
