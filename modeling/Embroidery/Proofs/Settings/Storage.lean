/-
  Settings in files: what is saved is loaded again.

  Settings within their limits are written to every file that can be written, and the text that is
  found there afterwards is read back (`SettingsFormat.read_write`).  What is loaded are the
  settings themselves, but for one value: where no acceleration is set, TOML leaves it out, and on
  loading the machine's default limits stand in (`SettingsFormat.restored`).  Settings out of their
  limits, and names without a known extension, change no file; and nothing out of limits is loaded.

  The readers are not known to take every float for what the writers print; so the numbers that are
  saved are asked to come back (`SettingsFormat.ReadsNumbers`).
-/
import Embroidery.Proofs.Files.Script
import Embroidery.Proofs.Files.Workspace
import Embroidery.Proofs.Results
import Embroidery.Proofs.Settings.Record

namespace Embroidery

variable {s t : Settings} {path : Path} {format : SettingsFormat} {fault : SettingsFault}
  {w w' : Workspace}

/-! ## Limits -/

namespace Settings

/-- Settings are within their limits if each of their parts is. -/
theorem check_eq_ok_iff : s.check = .ok () ↔
    checkMachine s.machine = .ok () ∧ checkGeneration s.generation = .ok () := by
  rw [check, bind_eq_ok_iff]
  exact ⟨fun ⟨_, hmachine, hgeneration⟩ => ⟨hmachine, hgeneration⟩,
    fun ⟨hmachine, hgeneration⟩ => ⟨(), hmachine, hgeneration⟩⟩

/-- The numbers of generation within its limits are finite. -/
theorem isFinite_of_check (h : s.check = .ok ()) :
    s.generation.scalingFactor.isFinite = true ∧
      ∀ c, s.generation.clearance = some c → c.isFinite = true := by
  obtain ⟨-, hgeneration⟩ := check_eq_ok_iff.1 h
  obtain ⟨_, hscaling, hrest⟩ := of_bind_eq_ok hgeneration
  obtain ⟨_, hclearance, -⟩ := of_bind_eq_ok hrest
  constructor
  · rw [checkScaling] at hscaling
    split at hscaling
    · exact nomatch hscaling
    · next hbounds =>
      rw [Bool.or_eq_true, not_or, Bool.not_eq_true', Bool.not_eq_false] at hbounds
      exact hbounds.1
  · intro c hc
    rw [hc, checkClearance] at hclearance
    split at hclearance
    · exact nomatch hclearance
    · next hbounds =>
      rw [Bool.or_eq_true, not_or, Bool.not_eq_true', Bool.not_eq_false] at hbounds
      exact hbounds.1

/-- The limits that stand in for an absent acceleration are within the limits themselves. -/
theorem check_withLimits (h : s.check = .ok ()) : s.withLimits.check = .ok () := by
  obtain ⟨hmachine, hgeneration⟩ := check_eq_ok_iff.1 h
  refine check_eq_ok_iff.2 ⟨?_, hgeneration⟩
  cases hacceleration : s.machine.acceleration with
  | some a =>
    have hself : s.withLimits = s := (withLimits_eq_self_iff s).2 (by rw [hacceleration]; rfl)
    rw [hself]
    exact hmachine
  | none =>
    rw [checkMachine, hacceleration] at hmachine
    rw [checkMachine, withLimits, hacceleration]
    exact hmachine

end Settings

/-! ## Formats -/

namespace SettingsFormat

/-- The reader of the format takes a number for itself when it is written. -/
def ReadsBack : SettingsFormat → Binary64 → Prop
  | json, v => Json.ReadsBack v
  | toml, v => Toml.ReadsBack v

/-- The numbers of the settings come back from the format. -/
structure ReadsNumbers (format : SettingsFormat) (s : Settings) : Prop where
  scaling : format.ReadsBack s.generation.scalingFactor
  clearance : ∀ c, s.generation.clearance = some c → format.ReadsBack c

/-- The settings that come back from the format. -/
def restored : SettingsFormat → Settings → Settings
  | json, s => s
  | toml, s => s.withLimits

/-- All settings come back from JSON, and from TOML those with an acceleration. -/
theorem restored_eq_self_iff :
    format.restored s = s ↔ (format = toml → s.machine.acceleration.isSome = true) := by
  cases format with
  | json => exact ⟨fun _ h => (nomatch h), fun _ => rfl⟩
  | toml => exact (Settings.withLimits_eq_self_iff s).trans ⟨fun h _ => h, fun h => h rfl⟩

theorem check_restored (h : s.check = .ok ()) : (format.restored s).check = .ok () := by
  cases format with
  | json => exact h
  | toml => exact Settings.check_withLimits h

/-- Settings within their limits come back from their text. -/
theorem read_write (hcheck : s.check = .ok ()) (hnumbers : format.ReadsNumbers s) :
    format.read (format.write s) = some (format.restored s) := by
  obtain ⟨hscaling, hclearance⟩ := hnumbers
  cases format with
  | json =>
    obtain ⟨hfinite, hleast⟩ := Settings.isFinite_of_check hcheck
    have hdocument := Json.read_write (Settings.json_expressible (.float hfinite hscaling)
      fun c hc => .float (hleast c hc) (hclearance c hc))
    rw [write, read, hdocument]
    exact Settings.ofDocument_members false s
  | toml =>
    have hdocument := Toml.read_write (Settings.toml_storable hscaling hclearance)
    rw [write, read, hdocument]
    exact Settings.ofDocument_kept s

end SettingsFormat

/-! ## Saving -/

/-- A file can be written at the path, once the folders are made that it needs. -/
def Workspace.IsWritable (w : Workspace) (path : Path) : Prop :=
  ∃ w' loc, (Settings.makeFoldersFor path).run w = (.ok (), w') ∧ w'.writeTarget path = .ok loc

namespace Settings

theorem rendered_eq (hcheck : s.check = .ok ())
    (hformat : SettingsFormat.ofPath path = .ok format) :
    s.rendered path = .ok (format.write s) := by
  rw [rendered, hcheck, hformat]
  rfl

/-- Settings that are rejected, for a value or for the name of the file, change no file. -/
theorem run_save_rejected (h : s.rendered path = .error fault) (w : Workspace) :
    (s.save path).run w = (.error (.unsound fault), w) := by
  rw [save, h]
  rfl

/-- A text is saved where a file can be written, and found there. -/
theorem run_save {text : String} (hrendered : s.rendered path = .ok text)
    (hwritable : w.IsWritable path) :
    ∃ w', (s.save path).run w = (.ok (), w') ∧ w'.read path = .ok text.toUTF8 := by
  obtain ⟨made, loc, hfolders, htarget⟩ := hwritable
  have hwrite : made.write path text.toUTF8 = (.ok (), made.place loc (.file text.toUTF8)) := by
    rw [Workspace.write, htarget]
  have hread := Workspace.read_write htarget text.toUTF8
  rw [hwrite] at hread
  refine ⟨_, ?_, hread⟩
  rw [save, hrendered]
  dsimp only
  rw [Script.run_bind, hfolders]
  dsimp only
  rw [Script.run_bind, Script.run_writeText, hwrite]
  rfl

/-! ## Loading -/

/-- What is loaded from a file whose text is known. -/
theorem run_load {text : String} (hformat : SettingsFormat.ofPath path = .ok format)
    (hread : w.read path = .ok text.toUTF8) :
    (load path).run w = (parse format text, w) := by
  rw [load, hformat]
  dsimp only
  rw [Script.run_bind, Script.run_readText hread]
  rfl

theorem parse_eq_ok_iff {text : String} :
    parse format text = .ok s ↔ format.read text = some s ∧ s.check = .ok () := by
  rw [parse]
  cases hread : format.read text with
  | none => exact ⟨fun h => (nomatch h), fun h => (nomatch h.1)⟩
  | some t =>
    dsimp only
    cases hcheck : t.check with
    | error fault =>
      refine ⟨fun h => (nomatch h), fun ⟨hsame, hs⟩ => ?_⟩
      rw [Option.some.inj hsame, hs] at hcheck
      exact nomatch hcheck
    | ok _ =>
      refine ⟨fun h => ?_, fun ⟨hsame, _⟩ => by rw [← Option.some.inj hsame]; rfl⟩
      rw [← Except.ok.inj h]
      exact ⟨rfl, hcheck⟩

/-- Nothing out of its limits is loaded. -/
theorem check_of_load (h : (load path).run w = (.ok s, w')) : s.check = .ok () := by
  rw [load] at h
  split at h
  · exact nomatch (Prod.mk.inj h).1
  · rw [Script.run_bind] at h
    split at h
    · exact nomatch (Prod.mk.inj h).1
    · exact (parse_eq_ok_iff.1 (Prod.mk.inj h).1).2

/-- **Settings are kept in files.**  Settings within their limits are saved to every file that can
    be written.  The same settings are loaded from it again, unless it is TOML and there is no
    acceleration; then the default one is loaded.  Settings that are rejected change no file, and
    what is loaded is within its limits. -/
theorem kept_in_files (s : Settings) (path : Path) (w : Workspace) :
    (s.check = .ok () → ∀ format, SettingsFormat.ofPath path = .ok format → format.ReadsNumbers s →
      w.IsWritable path → ∃ w', (s.save path).run w = (.ok (), w') ∧
        (load path).run w' = (.ok (format.restored s), w') ∧
        ((load path).run w' = (.ok s, w') ↔
          (format = .toml → s.machine.acceleration.isSome = true))) ∧
    (∀ fault,
      s.check = .error fault ∨ s.check = .ok () ∧ SettingsFormat.ofPath path = .error fault →
      (s.save path).run w = (.error (.unsound fault), w)) ∧
    (∀ t w', (load path).run w = (.ok t, w') → t.check = .ok ()) := by
  refine ⟨?_, ?_, ?_⟩
  · intro hcheck format hformat hnumbers hwritable
    obtain ⟨w', hsave, hread⟩ := run_save (rendered_eq hcheck hformat) hwritable
    have hload : (load path).run w' = (.ok (format.restored s), w') := by
      rw [run_load hformat hread, parse_eq_ok_iff.2 ⟨SettingsFormat.read_write hcheck hnumbers,
        SettingsFormat.check_restored hcheck⟩]
    refine ⟨w', hsave, hload, ?_⟩
    rw [hload, ← SettingsFormat.restored_eq_self_iff]
    constructor
    · intro h
      exact Except.ok.inj (Prod.mk.inj h).1
    · intro h
      rw [h]
  · rintro fault (hcheck | ⟨hcheck, hformat⟩)
    · exact run_save_rejected (by rw [rendered, hcheck]; rfl) w
    · exact run_save_rejected (by rw [rendered, hcheck, hformat]; rfl) w
  · intro t w' h
    exact check_of_load h

/-- The numbers of the default settings come back from JSON. -/
theorem readsNumbers_default : SettingsFormat.json.ReadsNumbers {} := by
  have hchars : Json.numberStyle.chars 10 = "10.0".toList := by decide +kernel
  have hfloat : Json.floatOf ⟨false, ['1', '0'], ['0'], none⟩ = some 10 := by decide +kernel
  have hscaling : Json.ReadsBack 10 := by
    refine ⟨⟨false, ['1', '0'], ['0'], none⟩, by rw [hchars]; rfl, ?_⟩
    rw [Json.Numeral.toDocument, hfloat]
    rfl
  exact ⟨hscaling, fun _ hc => absurd hc.symm (Option.some_ne_none _)⟩

/-- Settings without an acceleration are kept as JSON, in a folder that is made for them; a name
    with another extension is refused. -/
theorem kept_in_new_folder :
    let w : Workspace := ⟨["home"], [(["home"], .folder)], 0⟩
    let s : Settings := { recentFiles := [⟨"a \"b\".json"⟩], machine.acceleration := none }
    (∃ w', (s.save ⟨"stitchkit/config.json"⟩).run w = (.ok (), w') ∧
      (load ⟨"stitchkit/config.json"⟩).run w' = (.ok s, w')) ∧
      (s.save ⟨"stitchkit/config.ini"⟩).run w =
        (.error (.unsound (.unknownFormat (some "ini"))), w) := by
  intro w s
  have hcheck : s.check = .ok () := ok_of_toOption (by decide +kernel)
  have hextension : (Path.mk "stitchkit/config.ini").extension = some "ini" := by decide +kernel
  obtain ⟨hscaling, hclearance⟩ := readsNumbers_default
  have hwritable : w.IsWritable ⟨"stitchkit/config.json"⟩ :=
    ⟨((makeFoldersFor ⟨"stitchkit/config.json"⟩).run w).2, ["home", "stitchkit", "config.json"],
      Prod.ext (ok_of_toOption (by decide +kernel)) rfl, ok_of_toOption (by decide +kernel)⟩
  obtain ⟨hkept, -⟩ := kept_in_files s ⟨"stitchkit/config.json"⟩ w
  obtain ⟨w', hsave, hload, -⟩ := hkept hcheck .json (ok_of_toOption (by decide +kernel))
    ⟨hscaling, hclearance⟩ hwritable
  obtain ⟨-, hrejected, -⟩ := kept_in_files s ⟨"stitchkit/config.ini"⟩ w
  refine ⟨⟨w', hsave, hload⟩, hrejected _ (.inr ⟨hcheck, ?_⟩)⟩
  rw [SettingsFormat.ofPath, hextension]
  rfl

/-- Settings without an acceleration come back from TOML with one. -/
theorem limits_from_toml :
    let w : Workspace := ⟨["home"], [(["home"], .folder)], 0⟩
    let s : Settings := { machine.acceleration := none }
    s.check = .ok () ∧ ∃ w' t, (s.save ⟨"c.toml"⟩).run w = (.ok (), w') ∧
      (load ⟨"c.toml"⟩).run w' = (.ok t, w') ∧ t.machine.acceleration = some ⟨300, 500, 2000⟩ ∧
      t ≠ s := by
  intro w s
  have hcheck : s.check = .ok () := ok_of_toOption (by decide +kernel)
  have hformat : SettingsFormat.ofPath ⟨"c.toml"⟩ = .ok .toml := ok_of_toOption (by decide +kernel)
  have hnumber : Toml.ReadsBack 10 := by
    have hchars : Toml.numberStyle.chars 10 = "10.0".toList := by decide +kernel
    have hfloat : Toml.float? "10.0".toList = some 10 := by decide +kernel
    rw [Toml.ReadsBack, hchars, Toml.wordValue, hfloat]
    rfl
  have hwritable : w.IsWritable ⟨"c.toml"⟩ :=
    ⟨w, ["home", "c.toml"], Prod.ext (ok_of_toOption (by decide +kernel)) rfl,
      ok_of_toOption (by decide +kernel)⟩
  obtain ⟨w', hsave, hread⟩ := run_save (rendered_eq hcheck hformat) hwritable
  have hrestored : SettingsFormat.toml.read (SettingsFormat.toml.write s) = some s.withLimits :=
    SettingsFormat.read_write hcheck ⟨hnumber, fun _ hc => absurd hc.symm (Option.some_ne_none _)⟩
  refine ⟨hcheck, w', s.withLimits, hsave, ?_, rfl, by decide⟩
  rw [run_load hformat hread, parse_eq_ok_iff.2 ⟨hrestored, check_withLimits hcheck⟩]

end Settings

end Embroidery
