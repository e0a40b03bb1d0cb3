/-
  Settings that were loaded are saved and loaded again.

  Saving settings as TOML leaves an absent acceleration out, and the default limits stand in when
  they are loaded again (`SettingsFormat.restored`).  Settings that were loaded from TOML have an
  acceleration, since nothing in a TOML file is null; so nothing of them is lost when they are saved
  (`Settings.restored_of_parse`).  Their file is there, in a folder, and can be written to; it is
  the only one that saving changes (`Settings.run_save_again`).
-/
import Embroidery.Proofs.Document.Toml.NullFree
import Embroidery.Proofs.Files.Folders
import Embroidery.Proofs.Settings.Storage

namespace Embroidery

/-! ## An acceleration from TOML -/

section
variable {α : Type} {read : Document → Option α} {d : Document} {field : Option Document}
  {surplus : Bool}

/-- An option without null has a value, if its default has one. -/
theorem isSome_of_orDefault {fallback value : Option α} (hfallback : fallback.isSome = true)
    (hfree : ∀ d ∈ field, d.NullFree)
    (h : Document.orDefault fallback (Document.optional read) field = some value) :
    value.isSome = true := by
  cases field with
  | none => exact Option.some.inj h ▸ hfallback
  | some d =>
    have hd := hfree d rfl
    rw [Document.orDefault] at h
    unfold Document.optional at h
    split at h
    · exact nomatch hd
    · obtain ⟨a, -, rfl⟩ := Option.map_eq_some_iff.1 h
      rfl

theorem MachineSettings.acceleration_isSome {m : MachineSettings} (hd : d.NullFree)
    (h : MachineSettings.ofDocument surplus d = some m) : m.acceleration.isSome = true := by
  obtain ⟨values, hvalues, h⟩ := Option.bind_eq_some_iff.1 h
  have hfree := hd.record hvalues
  split at h
  · next jump stitch zLow zHigh acceleration =>
    obtain ⟨_, -, h⟩ := Option.bind_eq_some_iff.1 h
    obtain ⟨_, -, h⟩ := Option.bind_eq_some_iff.1 h
    obtain ⟨_, -, h⟩ := Option.bind_eq_some_iff.1 h
    obtain ⟨_, -, h⟩ := Option.bind_eq_some_iff.1 h
    obtain ⟨limits, hlimits, h⟩ := Option.bind_eq_some_iff.1 h
    obtain rfl := Option.some.inj h
    exact isSome_of_orDefault rfl (hfree acceleration (by simp)) hlimits
  · exact nomatch h

theorem Settings.acceleration_isSome {s : Settings} (hd : d.NullFree)
    (h : Settings.ofDocument surplus d = some s) : s.machine.acceleration.isSome = true := by
  obtain ⟨values, hvalues, h⟩ := Option.bind_eq_some_iff.1 h
  have hfree := hd.record hvalues
  split at h
  · next recent machine generation =>
    obtain ⟨_, -, h⟩ := Option.bind_eq_some_iff.1 h
    obtain ⟨m, hm, h⟩ := Option.bind_eq_some_iff.1 h
    obtain ⟨_, -, h⟩ := Option.bind_eq_some_iff.1 h
    obtain rfl := Option.some.inj h
    cases machine with
    | none =>
      obtain rfl := Option.some.inj hm
      rfl
    | some d => exact MachineSettings.acceleration_isSome (hfree (some d) (by simp) d rfl) hm
  · exact nomatch h

end

/-! ## Loading and saving again -/

variable {w w' : Workspace} {path : Path} {s : Settings} {format : SettingsFormat}
  {loc : Location} {content : ByteArray}

namespace Settings

/-- Settings are loaded from a file that is there, with a format and a text. -/
theorem of_load (h : (load path).run w = (.ok s, w')) :
    w' = w ∧ ∃ format loc content text, SettingsFormat.ofPath path = .ok format ∧
      w.locate path = .ok loc ∧ w.entryAt loc = some (.file content) ∧
      parse format text = .ok s := by
  rw [load] at h
  split at h
  · cases (Prod.mk.inj h).1
  · next format hformat =>
    rw [Script.run_bind, Script.looksOnly_readText] at h
    split at h
    · cases (Prod.mk.inj h).1
    · next text htext =>
      obtain ⟨hparse, rfl⟩ := Prod.mk.inj h
      rw [Script.readText, Script.run_bind, Script.run_read] at htext
      cases hread : w.read path with
      | error why =>
        rw [hread] at htext
        cases htext
      | ok content =>
        obtain ⟨loc, hlocate, hentry⟩ := Workspace.read_eq_ok_iff.1 hread
        exact ⟨rfl, format, loc, content, text, hformat, hlocate, hentry, hparse⟩

theorem looksOnly_load (path : Path) : (load path).LooksOnly := by
  rw [load]
  split
  · exact Script.looksOnly_pure _
  · refine (Script.looksOnly_readText path).bind fun answer => ?_
    cases answer with
    | error why => exact Script.looksOnly_pure _
    | ok text => exact Script.looksOnly_pure _

theorem looksOnly_loadOrDefault (path : Path) : (loadOrDefault path).LooksOnly := by
  refine ((Script.looksOnly_look path).bind fun _ => Script.looksOnly_pure _).bind fun present => ?_
  cases present with
  | false => exact Script.looksOnly_pure _
  | true => exact looksOnly_load path

/-- Settings are loaded from a file, or nothing is there. -/
theorem of_loadOrDefault (h : (loadOrDefault path).run w = (.ok s, w)) :
    (load path).run w = (.ok s, w) ∨ ∀ entry, w.find path ≠ .ok entry := by
  have hpresent : (Script.isPresent path).run w = ((w.find path).toOption.isSome, w) := by
    rw [Script.isPresent, Script.run_bind, Script.run_look]
    cases w.find path with
    | error fault => rfl
    | ok entry => rfl
  rw [loadOrDefault, Script.run_bind, hpresent] at h
  cases hfind : w.find path with
  | error fault => exact .inr fun _ hentry => nomatch hentry
  | ok entry =>
    rw [hfind] at h
    exact .inl h

/-- Nothing of settings that were loaded is lost in the format that they were loaded from. -/
theorem restored_of_parse {text : String} (h : parse format text = .ok s) :
    format.restored s = s := by
  obtain ⟨hread, -⟩ := parse_eq_ok_iff.1 h
  refine SettingsFormat.restored_eq_self_iff.2 ?_
  rintro rfl
  obtain ⟨d, hd, hs⟩ := Option.bind_eq_some_iff.1 hread
  exact acceleration_isSome (Toml.nullFree_read hd) hs

/-- Settings that are saved to a settings file that is there change that file and no other. -/
theorem run_save_again (hformat : SettingsFormat.ofPath path = .ok format)
    (hlocate : w.locate path = .ok loc) (hentry : w.entryAt loc = some (.file content))
    (hcheck : s.check = .ok ()) :
    ∃ w', (s.save path).run w = (.ok (), w') ∧
      w.Turns w' loc (some (.file (format.write s).toUTF8)) := by
  obtain ⟨before, last, dir, hnames, rfl⟩ := Workspace.exists_names hlocate hentry
  obtain ⟨-, hdots⟩ := hnames.fileName hformat
  have hfile : w.entryAt (Workspace.stepFrom dir last) ≠ some .folder :=
    fun h => nomatch hentry.symm.trans h
  have htarget := hnames.writeTarget hdots hfile
  refine ⟨_, ?_, Workspace.turns_place hfile (format.write s).toUTF8⟩
  rw [save, rendered_eq hcheck hformat]
  dsimp only
  rw [Script.run_bind, run_makeFoldersFor hnames]
  dsimp only
  rw [Script.run_bind, Script.run_writeText, Workspace.write, htarget]
  rfl

/-- The settings that are loaded from a file with their text. -/
theorem run_load_again (hformat : SettingsFormat.ofPath path = .ok format)
    (hlocate : w.locate path = .ok loc)
    (hentry : w.entryAt loc = some (.file (format.write s).toUTF8)) (hcheck : s.check = .ok ())
    (hnumbers : format.ReadsNumbers s) (hrestored : format.restored s = s) :
    (load path).run w = (.ok s, w) := by
  have hread : format.read (format.write s) = some s :=
    (SettingsFormat.read_write hcheck hnumbers).trans (congrArg some hrestored)
  rw [run_load hformat (Workspace.read_of_locate hlocate hentry),
    parse_eq_ok_iff.2 ⟨hread, hcheck⟩]

end Settings
end Embroidery
